import Mathlib.Algebra.Order.Ring.Nat
import Mathlib.Algebra.Order.Ring.Int
import Mathlib.Tactic.Common

/-!
# Checked machine arithmetic in an error monad

Programs that must not wrap around compute with the `checked_*` family: every operation returns
an optional result, and the caller turns the missing one into its own error.  This file models
that family over `ℕ` and `ℤ`, with the width as a parameter, and collects the two kinds of lemma a
proof about such a program needs.

* **Inversion** — `bind_eq_ok`, `require_eq_ok`, `okOr_eq_ok` and the `checked*_eq_some` family
  turn "this straight-line code returned `ok`" into the facts its guards established.  They form
  the simp set with which a whole body is peeled apart at once.
* **Success** — `checked*_of_lt` and `checkedSub_of_le` go the other way: in range, the operation
  returns its mathematical value.
* **Failure** — `FailsOnly P x` says that every error `x` can return satisfies `P`; it composes over
  sequencing, so which errors a body can return is read off its guards.
-/

namespace Checked

variable {ε α β : Type}

/-! ## The error monad -/

/-- Run two computations in sequence: the whole succeeds exactly when both halves do. -/
@[simp] lemma bind_eq_ok {x : Except ε α} {f : α → Except ε β} {b : β} :
    (x >>= f) = .ok b ↔ ∃ a, x = .ok a ∧ f a = .ok b := by
  cases x <;> simp [Bind.bind, Except.bind]

@[simp] lemma pure_eq_ok {a b : α} : (pure a : Except ε α) = .ok b ↔ a = b := by
  simp [pure, Except.pure]

@[simp] lemma throw_ne_ok {e : ε} {b : α} : (throw e : Except ε α) = .ok b ↔ False := by
  simp [throw, throwThe, MonadExceptOf.throw]

@[simp] lemma ok_bind (a : α) (f : α → Except ε β) : ((.ok a : Except ε α) >>= f) = f a := rfl

@[simp] lemma error_bind (e : ε) (f : α → Except ε β) :
    ((.error e : Except ε α) >>= f) = .error e := rfl

/-- Two continuations only have to agree on the results of the first computation. -/
lemma bind_congr_ok {x : Except ε α} {f g : α → Except ε β} (h : ∀ a, x = .ok a → f a = g a) :
    x >>= f = x >>= g := by
  cases x with
  | error e => rfl
  | ok a => exact h a rfl

/-- A guard: continue if the condition holds, fail with `e` otherwise. -/
def require (c : Prop) [Decidable c] (e : ε) : Except ε Unit :=
  if c then .ok () else .error e

/-- A check succeeds exactly if its condition holds. -/
@[simp] lemma require_eq_ok {c : Prop} [Decidable c] {e : ε} {u : Unit} :
    require c e = .ok u ↔ c := by
  simp only [require]
  split_ifs with h <;> simp [h]

/-- A check whose condition holds succeeds. -/
lemma require_of {c : Prop} [Decidable c] (e : ε) (h : c) : require c e = .ok () := if_pos h

/-- A check whose condition fails returns its error. -/
lemma require_of_not {c : Prop} [Decidable c] (e : ε) (h : ¬ c) : require c e = .error e :=
  if_neg h

/-- Turn a missing result into the error `e`. -/
def okOr (e : ε) : Option α → Except ε α
  | some a => .ok a
  | none => .error e

/-- A value is unwrapped exactly if it is there. -/
@[simp] lemma okOr_eq_ok {e : ε} {o : Option α} {a : α} : okOr e o = .ok a ↔ o = some a := by
  cases o <;> simp [okOr]

/-- A check on the result of a computation, which fails if the computation does. -/
def isOkAnd (P : α → Bool) : Except ε α → Bool
  | .ok a => P a
  | .error _ => false

/-- The test finds a result that satisfies the predicate. -/
@[simp] lemma isOkAnd_eq_true {P : α → Bool} {x : Except ε α} :
    isOkAnd P x = true ↔ ∃ a, x = .ok a ∧ P a = true := by
  cases x <;> simp [isOkAnd]

/-! ## Which errors -/

/-- Every error the computation can return satisfies `P`. -/
def FailsOnly (P : ε → Prop) (x : Except ε α) : Prop := ∀ e, x = .error e → P e

section FailsOnly

variable {P : ε → Prop} {x : Except ε α} {f : α → Except ε β}

/-- A success does not fail. -/
lemma failsOnly_ok (a : α) : FailsOnly P (.ok a : Except ε α) := by simp [FailsOnly]

lemma failsOnly_pure (a : α) : FailsOnly P (pure a : Except ε α) := failsOnly_ok a

/-- A failure fails only as it does. -/
lemma failsOnly_error {e : ε} (h : P e) : FailsOnly P (.error e : Except ε α) := by
  simpa [FailsOnly] using h

/-- A computation with one error that does not succeed returns that error. -/
lemma eq_error_of_failsOnly {e : ε} (hx : FailsOnly (· = e) x) (hno : ∀ a, x ≠ .ok a) :
    x = .error e := by
  cases x with
  | error e' => exact congrArg Except.error (hx e' rfl)
  | ok a => exact absurd rfl (hno a)

/-- The second computation only has to be considered on the results of the first. -/
lemma failsOnly_bind (hx : FailsOnly P x) (hf : ∀ a, x = .ok a → FailsOnly P (f a)) :
    FailsOnly P (x >>= f) := by
  cases x with
  | error e => exact failsOnly_error (hx e rfl)
  | ok a => exact hf a rfl

/-- A check fails only with its error, when its condition fails. -/
lemma failsOnly_require {c : Prop} [Decidable c] {e : ε} (h : ¬ c → P e) :
    FailsOnly P (require c e) := by
  by_cases hc : c
  · rw [require_of e hc]
    exact failsOnly_ok ()
  · rw [require_of_not e hc]
    exact failsOnly_error (h hc)

/-- An unwrapped option fails only with its error, when it is empty. -/
lemma failsOnly_okOr {e : ε} {o : Option α} (h : o = none → P e) : FailsOnly P (okOr e o) := by
  cases o with
  | none => exact failsOnly_error (h rfl)
  | some a => exact failsOnly_ok a

/-- A branch fails only as its cases do. -/
lemma failsOnly_ite {c : Prop} [Decidable c] {x y : Except ε α} (hx : c → FailsOnly P x)
    (hy : ¬ c → FailsOnly P y) : FailsOnly P (if c then x else y) := by
  by_cases hc : c
  · rw [if_pos hc]
    exact hx hc
  · rw [if_neg hc]
    exact hy hc

end FailsOnly

/-! ## Unsigned operations

`w` is the width in bits.  Operands are natural numbers; a value of the machine type is one below
`2 ^ w`.
-/

/-- Addition at width `w`. -/
def checkedAdd (w a b : ℕ) : Option ℕ := if a + b < 2 ^ w then some (a + b) else none

/-- Subtraction; the width plays no role, since the result only shrinks. -/
def checkedSub (a b : ℕ) : Option ℕ := if b ≤ a then some (a - b) else none

/-- Multiplication at width `w`. -/
def checkedMul (w a b : ℕ) : Option ℕ := if a * b < 2 ^ w then some (a * b) else none

/-- Division, missing only for a zero divisor. -/
def checkedDiv (a b : ℕ) : Option ℕ := if b = 0 then none else some (a / b)

/-- Narrowing conversion to width `w`. -/
def tryFrom (w a : ℕ) : Option ℕ := if a < 2 ^ w then some a else none

/-- An addition returns the sum exactly if it fits. -/
@[simp] lemma checkedAdd_eq_some {w a b c : ℕ} :
    checkedAdd w a b = some c ↔ a + b < 2 ^ w ∧ a + b = c := by
  simp only [checkedAdd]
  split_ifs with h <;> simp [h]

/-- A subtraction returns the difference exactly if it does not go below zero. -/
@[simp] lemma checkedSub_eq_some {a b c : ℕ} :
    checkedSub a b = some c ↔ b ≤ a ∧ a - b = c := by
  simp only [checkedSub]
  split_ifs with h <;> simp [h]

/-- A multiplication returns the product exactly if it fits. -/
@[simp] lemma checkedMul_eq_some {w a b c : ℕ} :
    checkedMul w a b = some c ↔ a * b < 2 ^ w ∧ a * b = c := by
  simp only [checkedMul]
  split_ifs with h <;> simp [h]

/-- A division returns the quotient exactly if the divisor is not zero. -/
@[simp] lemma checkedDiv_eq_some {a b c : ℕ} :
    checkedDiv a b = some c ↔ b ≠ 0 ∧ a / b = c := by
  simp only [checkedDiv]
  split_ifs with h <;> simp [h]

/-- A conversion returns the number exactly if it fits. -/
@[simp] lemma tryFrom_eq_some {w a c : ℕ} : tryFrom w a = some c ↔ a < 2 ^ w ∧ a = c := by
  simp only [tryFrom]
  split_ifs with h <;> simp [h]

lemma checkedAdd_of_lt {w a b : ℕ} (h : a + b < 2 ^ w) : checkedAdd w a b = some (a + b) :=
  if_pos h

lemma checkedSub_of_le {a b : ℕ} (h : b ≤ a) : checkedSub a b = some (a - b) := if_pos h

lemma tryFrom_of_lt {w a : ℕ} (h : a < 2 ^ w) : tryFrom w a = some a := if_pos h

/-! ## Signed addition -/

/-- Signed addition at 64 bits, missing when the sum leaves `[-2 ^ 63, 2 ^ 63)`. -/
def checkedAddI64 (a b : ℤ) : Option ℤ :=
  if -2 ^ 63 ≤ a + b ∧ a + b < 2 ^ 63 then some (a + b) else none

/-- A signed addition returns the sum exactly if it fits 64 bits. -/
@[simp] lemma checkedAddI64_eq_some {a b c : ℤ} :
    checkedAddI64 a b = some c ↔ (-2 ^ 63 ≤ a + b ∧ a + b < 2 ^ 63) ∧ a + b = c := by
  rw [checkedAddI64]
  split_ifs with h
  · exact ⟨fun e => ⟨h, Option.some.inj e⟩, fun e => congrArg some e.2⟩
  · exact ⟨fun e => absurd e (by simp), fun e => absurd e.1 h⟩

lemma checkedAddI64_of_lt {a b : ℤ} (h : -2 ^ 63 ≤ a + b ∧ a + b < 2 ^ 63) :
    checkedAddI64 a b = some (a + b) := if_pos h

end Checked
