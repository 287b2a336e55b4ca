import FloorProgram.State

/-!
# Starting a round

`execute_round_start` and `require_viable_round_params` of `start_round.rs`.

Starting a round has a read-only half and a writing half.  `selectEligible` computes the round's
USDC cap and the set of investors who can pay their pro-rata part of it, by dropping those who
cannot until nobody more has to go.  `lockEligible` then moves each one's part from the deposit to
the lock, and gives the units lost to rounding to the first investor who can still take all of
them.

The `eligible` array of the source is kept next to the records: a *slot* is a flag and a record.
The writing half returns the slots even when it fails, because `sell_waln` catches some errors of
`execute_round_start` and goes on with the pool as it was left.
-/

namespace Floor

open Checked Loop

/-- `10_u128.pow(waln_decimals)`; the release profile has overflow checks on. -/
def walnScale (walnDecimals : ℕ) : Except TxError ℕ :=
  okOr .Panicked (tryFrom 128 (10 ^ walnDecimals))

/-- `a.checked_mul(b)?.checked_div(c)?` on `u128`. -/
def mulDiv (a b c : ℕ) : Except TxError ℕ := do
  let product ← arith (checkedMul 128 a b)
  arith (checkedDiv product c)

/-- `u64::try_from` of the above. -/
def mulDivU64 (a b c : ℕ) : Except TxError ℕ := do
  let quotient ← mulDiv a b c
  arith (tryFrom 64 quotient)

/-- The USDC a full round costs. -/
def roundCapUsdc (roundSizeWaln floorPriceUsdc walnDecimals : ℕ) : Except TxError ℕ := do
  let scale ← walnScale walnDecimals
  mulDiv roundSizeWaln floorPriceUsdc scale

/-- A pool slot together with its entry in the `eligible` array. -/
abbrev Slot := Bool × InvestorRecord

/-! ## Choosing the participants -/

/-- The first filter: a deposit of at least half the cap, and a positive volume. -/
def initiallyEligible (cap : ℕ) (r : InvestorRecord) : Bool :=
  0 < r.usdcDeposited ∧ 0 < r.aatVolume ∧ cap / 2 ≤ r.usdcDeposited

/-- The total volume of the slots still eligible. -/
def eligibleVolume (slots : List Slot) : Except TxError ℕ :=
  slots.foldlM
    (fun total s => if s.1 then arith (checkedAdd 64 total s.2.aatVolume) else .ok total) 0

/-- One iteration of the elimination pass: drop the slot if its share of the cap rounds to zero or
exceeds its deposit. -/
def dropUnaffordable (cap totalAatVolume : ℕ) (changed : Bool) (s : Slot) :
    Except TxError (Slot × Bool) :=
  if s.1 = false then .ok (s, changed)
  else do
    let requiredLock ← mulDiv cap s.2.aatVolume totalAatVolume
    if requiredLock = 0 ∨ s.2.usdcDeposited < requiredLock then .ok ((false, s.2), true)
    else .ok (s, changed)

/-- The elimination loop.  Each pass uses the total of the slots that entered it.  A pass that
drops nobody ends the loop; any other pass lowers the number of eligible slots, so a fuel above
that number is never used up (`eliminate_total`). -/
def eliminate (cap : ℕ) : (fuel : ℕ) → List Slot → Except TxError (List Slot × ℕ)
  | 0, _ => .error .Panicked
  | fuel + 1, slots => do
    let totalAatVolume ← eligibleVolume slots
    ensure (0 < totalAatVolume) .NoEligibleInvestors
    let (slots', changed) ← committed (forMut (dropUnaffordable cap totalAatVolume) false slots)
    if changed then eliminate cap fuel slots' else .ok (slots', totalAatVolume)

/-- The read-only half of `execute_round_start`: the cap, the flagged slots and their volume.  The
`eligible` array has `MAX_INVESTORS` entries, so a longer slice would be indexed out of bounds. -/
def selectEligible (investors : List InvestorRecord)
    (roundSizeWaln floorPriceUsdc walnDecimals : ℕ) : Except TxError (ℕ × List Slot × ℕ) := do
  let cap ← roundCapUsdc roundSizeWaln floorPriceUsdc walnDecimals
  ensure (0 < cap) .InvalidParameter
  require (investors.length ≤ MAX_INVESTORS) .Panicked
  let slots := investors.map fun r => (initiallyEligible cap r, r)
  let (slots', total) ← eliminate cap (slots.length + 1) slots
  return (cap, slots', total)

/-! ## Locking their USDC -/

/-- Lock one eligible investor's share.  The record is written before the total is added up, so it
keeps the lock if the total overflows. -/
def lockShare (cap totalAatVolume : ℕ) (totalUsdcLocked : ℕ) (s : Slot) :
    Slot × Except TxError ℕ :=
  if s.1 = false then (s, .ok totalUsdcLocked)
  else
    match mulDiv cap s.2.aatVolume totalAatVolume with
    | .error e => (s, .error e)
    | .ok shareU128 =>
      let usdcLocked := min shareU128 s.2.usdcDeposited
      if usdcLocked = 0 then (s, .ok totalUsdcLocked)
      else
        match arith (checkedSub s.2.usdcDeposited usdcLocked) with
        | .error e => (s, .error e)
        | .ok deposited =>
          ((s.1, { s.2 with usdcDeposited := deposited, usdcLockedCurrentRound := usdcLocked }),
            arith (checkedAdd 64 totalUsdcLocked usdcLocked))

/-- Move `gap` more from the deposit to the lock of one investor: the deposit, the lock and the
total are written in this order, and what was written stays if a later one overflows. -/
def takeGap (gap totalUsdcLocked : ℕ) (s : Slot) : Slot × Except TxError ℕ :=
  match arith (checkedSub s.2.usdcDeposited gap) with
  | .error e => (s, .error e)
  | .ok deposited =>
    let r := { s.2 with usdcDeposited := deposited }
    match arith (checkedAdd 64 r.usdcLockedCurrentRound gap) with
    | .error e => ((s.1, r), .error e)
    | .ok locked =>
      ((s.1, { r with usdcLockedCurrentRound := locked }),
        arith (checkedAdd 64 totalUsdcLocked gap))

/-- The first eligible investor with at least `gap` left takes all of it; if there is none, nobody
takes anything. -/
def absorbGap (gap totalUsdcLocked : ℕ) : List Slot → List Slot × Except TxError ℕ
  | [] => ([], .ok totalUsdcLocked)
  | s :: slots =>
    if s.1 = true ∧ gap ≤ s.2.usdcDeposited then
      let r := takeGap gap totalUsdcLocked s
      (r.1 :: slots, r.2)
    else
      let r := absorbGap gap totalUsdcLocked slots
      (s :: r.1, r.2)

/-- The writing half of `execute_round_start`. -/
def lockEligible (cap totalAatVolume : ℕ) (slots : List Slot) : List Slot × Except TxError ℕ :=
  match forWrite (lockShare cap totalAatVolume) 0 slots with
  | (slots', .error e) => (slots', .error e)
  | (slots', .ok totalUsdcLocked) =>
    if cap - totalUsdcLocked = 0 then (slots', .ok totalUsdcLocked)
    else
      match arith (tryFrom 64 (cap - totalUsdcLocked)) with
      | .error e => (slots', .error e)
      | .ok gap => absorbGap gap totalUsdcLocked slots'

/-- Start a round on a slice of the pool: the slice afterwards, and the total volume and the total
USDC locked, or an error. -/
def executeRoundStart (investors : List InvestorRecord)
    (roundSizeWaln floorPriceUsdc walnDecimals : ℕ) :
    List InvestorRecord × Except TxError (ℕ × ℕ) :=
  match selectEligible investors roundSizeWaln floorPriceUsdc walnDecimals with
  | .error e => (investors, .error e)
  | .ok (cap, slots, totalAatVolume) =>
    match lockEligible cap totalAatVolume slots with
    | (slots', .error e) => (slots'.map Prod.snd, .error e)
    | (slots', .ok totalUsdcLocked) =>
      (slots'.map Prod.snd, .ok (totalAatVolume, totalUsdcLocked))

/-- What `initialize` and the setters demand of a price and a round size. -/
def requireViableRoundParams (roundSizeWaln floorPriceUsdc walnDecimals : ℕ) :
    Except TxError Unit := do
  let cap ← roundCapUsdc roundSizeWaln floorPriceUsdc walnDecimals
  ensure (0 < cap) .InvalidParameter
  ensure (MIN_SELL_WALN ≤ roundSizeWaln) .InvalidParameter

/-! ## The arithmetic primitives -/

@[simp] lemma walnScale_eq_ok {d s : ℕ} : walnScale d = .ok s ↔ 10 ^ d < 2 ^ 128 ∧ 10 ^ d = s := by
  simp only [walnScale, okOr_eq_ok, tryFrom_eq_some]

@[simp] lemma mulDiv_eq_ok {a b c q : ℕ} :
    mulDiv a b c = .ok q ↔ a * b < 2 ^ 128 ∧ c ≠ 0 ∧ a * b / c = q := by
  simp only [mulDiv, bind_eq_ok, arith_eq_ok, checkedMul_eq_some, checkedDiv_eq_some]
  constructor
  · rintro ⟨p, ⟨hp, rfl⟩, h⟩
    exact ⟨hp, h⟩
  · rintro ⟨hp, h⟩
    exact ⟨_, ⟨hp, rfl⟩, h⟩

@[simp] lemma mulDivU64_eq_ok {a b c q : ℕ} :
    mulDivU64 a b c = .ok q ↔ a * b < 2 ^ 128 ∧ c ≠ 0 ∧ q < 2 ^ 64 ∧ a * b / c = q := by
  simp only [mulDivU64, bind_eq_ok, mulDiv_eq_ok, arith_eq_ok, tryFrom_eq_some]
  constructor
  · rintro ⟨p, ⟨hp, hc, rfl⟩, hq, rfl⟩
    exact ⟨hp, hc, hq, rfl⟩
  · rintro ⟨hp, hc, hq, rfl⟩
    exact ⟨_, ⟨hp, hc, rfl⟩, hq, rfl⟩

@[simp] lemma roundCapUsdc_eq_ok {size price d cap : ℕ} :
    roundCapUsdc size price d = .ok cap ↔
      10 ^ d < 2 ^ 128 ∧ size * price < 2 ^ 128 ∧ size * price / 10 ^ d = cap := by
  simp only [roundCapUsdc, bind_eq_ok, walnScale_eq_ok, mulDiv_eq_ok]
  constructor
  · rintro ⟨s, ⟨hs, rfl⟩, hm, -, h⟩
    exact ⟨hs, hm, h⟩
  · rintro ⟨hs, hm, h⟩
    exact ⟨_, ⟨hs, rfl⟩, hm, (Nat.pow_pos (by decide)).ne', h⟩

/-- Viable parameters: the scale fits, the round costs something, and it is at least the minimum
sell. -/
@[simp] lemma requireViableRoundParams_eq_ok {size price d : ℕ} {u : Unit} :
    requireViableRoundParams size price d = .ok u ↔
      10 ^ d < 2 ^ 128 ∧ size * price < 2 ^ 128 ∧ 0 < size * price / 10 ^ d ∧
        MIN_SELL_WALN ≤ size := by
  simp only [requireViableRoundParams, bind_eq_ok, roundCapUsdc_eq_ok, ensure_eq_ok]
  constructor
  · rintro ⟨cap, ⟨hs, hm, rfl⟩, -, hcap, hsize⟩
    exact ⟨hs, hm, hcap, hsize⟩
  · rintro ⟨hs, hm, hcap, hsize⟩
    exact ⟨_, ⟨hs, hm, rfl⟩, (), hcap, hsize⟩

end Floor
