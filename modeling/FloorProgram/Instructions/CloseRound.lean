import FloorProgram.Instructions.SellWaln

/-!
# Closing a round by force

`close_round.rs`.  The admin settles a partially filled round: the USDC paid out so far is charged
pro rata to the locks, the rest of each lock is refunded, and the wALN received is split in the
proportion of what each lock would have bought.

The pool is walked three times.  `sumLocks` and `sumBaseSpent` only read; `closeRecord` writes.
USDC units lost to rounding are charged one each to the first participants that have room, and the
wALN lost to rounding goes to the last participant.
-/

namespace Floor

open Checked Loop Keyed Search

/-- `close_round_usdc_spent`: the USDC charged to one participant, and the remainder left. -/
def closeRoundUsdcSpent (usdcPaidForRound locked totalLockedUsdc remainingUsdcRemainder : ℕ) :
    Except TxError (ℕ × ℕ) := do
  let usdcSpent ← mulDivU64 usdcPaidForRound locked totalLockedUsdc
  if 0 < remainingUsdcRemainder ∧ usdcSpent < locked then do
    let usdcSpent' ← arith (checkedAdd 64 usdcSpent 1)
    let remainder' ← arith (checkedSub remainingUsdcRemainder 1)
    return (usdcSpent', remainder')
  else .ok (usdcSpent, remainingUsdcRemainder)

/-- What the first pass sums up. -/
structure LockSums where
  totalFullWaln : ℕ
  totalLockedUsdc : ℕ
  eligibleCount : ℕ

/-- One iteration of the first pass. -/
def addLock (scale floorPrice : ℕ) (t : LockSums) (r : InvestorRecord) : Except TxError LockSums :=
  if r.usdcLockedCurrentRound = 0 then .ok t
  else do
    let fullWaln ← mulDiv r.usdcLockedCurrentRound scale floorPrice
    let full ← arith (checkedAdd 128 t.totalFullWaln fullWaln)
    let locked ← arith (checkedAdd 128 t.totalLockedUsdc r.usdcLockedCurrentRound)
    return {
      totalFullWaln := full
      totalLockedUsdc := locked
      eligibleCount := t.eligibleCount + 1 }

/-- First pass: the wALN all locks would buy, the USDC they hold, and how many there are. -/
def sumLocks (scale floorPrice : ℕ) (investors : List InvestorRecord) : Except TxError LockSums :=
  investors.foldlM (addLock scale floorPrice)
    { totalFullWaln := 0, totalLockedUsdc := 0, eligibleCount := 0 }

/-- One iteration of the second pass. -/
def addBaseSpent (usdcPaidForRound totalLockedUsdc total : ℕ) (r : InvestorRecord) :
    Except TxError ℕ :=
  if r.usdcLockedCurrentRound = 0 then .ok total
  else do
    let base ← mulDivU64 usdcPaidForRound r.usdcLockedCurrentRound totalLockedUsdc
    arith (checkedAdd 64 total base)

/-- Second pass: the sum of the rounded-down charges. -/
def sumBaseSpent (usdcPaidForRound totalLockedUsdc : ℕ) (investors : List InvestorRecord) :
    Except TxError ℕ :=
  investors.foldlM (addBaseSpent usdcPaidForRound totalLockedUsdc) 0

/-- The numbers the writing pass runs under. -/
structure CloseTerms where
  scale : ℕ
  floorPrice : ℕ
  walnAvailable : ℕ
  usdcPaidForRound : ℕ
  sums : LockSums

/-- What the writing pass accumulates. -/
structure CloseTotals where
  remainingWaln : ℕ
  remainingUsdcRemainder : ℕ
  processedEligible : ℕ
  totalUsdcSpent : ℕ
  totalWalnPurchased : ℕ
  totalAatVolumeAtTrigger : ℕ
  participantData : List InvestorAlloc

/-- The wALN of one participant: a pro-rata share, or all that is left for the last one. -/
def closeAllocation (c : CloseTerms) (processed remainingWaln locked : ℕ) : Except TxError ℕ := do
  let fullWaln ← mulDiv locked c.scale c.floorPrice
  if processed = c.sums.eligibleCount then arith (tryFrom 64 remainingWaln)
  else mulDivU64 c.walnAvailable fullWaln c.sums.totalFullWaln

/-- Third pass: allocate wALN, charge USDC and refund the rest of the lock. -/
def closeRecord (c : CloseTerms) (t : CloseTotals) (r : InvestorRecord) :
    Except TxError (InvestorRecord × CloseTotals) :=
  if r.usdcLockedCurrentRound = 0 then .ok (r, t)
  else do
    let locked := r.usdcLockedCurrentRound
    let walnAlloc ← closeAllocation c (t.processedEligible + 1) t.remainingWaln locked
    let remainingWaln ← arith (checkedSub t.remainingWaln walnAlloc)
    let (usdcSpent, remainder) ← closeRoundUsdcSpent c.usdcPaidForRound locked
      c.sums.totalLockedUsdc t.remainingUsdcRemainder
    let refund ← arith (checkedSub locked usdcSpent)
    let deposited ← arith (checkedAdd 64 r.usdcDeposited refund)
    let committed ← arith (checkedAdd 64 r.usdcCommitted usdcSpent)
    let purchased ← arith (checkedAdd 64 r.walnPurchasedTotal walnAlloc)
    let totalSpent ← arith (checkedAdd 64 t.totalUsdcSpent usdcSpent)
    let totalWaln ← arith (checkedAdd 64 t.totalWalnPurchased walnAlloc)
    let totalVolume ← arith (checkedAdd 64 t.totalAatVolumeAtTrigger r.aatVolume)
    return ({ r with
        usdcLockedCurrentRound := 0
        usdcDeposited := deposited
        usdcCommitted := committed
        walnPurchasedTotal := purchased },
      { remainingWaln := remainingWaln
        remainingUsdcRemainder := remainder
        processedEligible := t.processedEligible + 1
        totalUsdcSpent := totalSpent
        totalWalnPurchased := totalWaln
        totalAatVolumeAtTrigger := totalVolume
        participantData :=
          if 0 < walnAlloc then t.participantData ++ [⟨r.investor, walnAlloc⟩]
          else t.participantData })

/-- The three passes over the pool, with the checks between and after them. -/
def closePool (scale floorPrice walnInRound usdcPaidForRound : ℕ)
    (investors : List InvestorRecord) : Except TxError (List InvestorRecord × CloseTotals) := do
  let sums ← sumLocks scale floorPrice investors
  ensure (0 < sums.totalFullWaln) .NoEligibleInvestors
  ensure (0 < usdcPaidForRound) .InvalidParameter
  ensure (usdcPaidForRound ≤ sums.totalLockedUsdc) .ArithmeticOverflow
  let totalBaseUsdcSpent ← sumBaseSpent usdcPaidForRound sums.totalLockedUsdc investors
  let remainder ← arith (checkedSub usdcPaidForRound totalBaseUsdcSpent)
  let (closed, totals) ← committed (forMut
    (closeRecord { scale := scale, floorPrice := floorPrice, walnAvailable := walnInRound,
                   usdcPaidForRound := usdcPaidForRound, sums := sums })
    { remainingWaln := walnInRound, remainingUsdcRemainder := remainder, processedEligible := 0,
      totalUsdcSpent := 0, totalWalnPurchased := 0, totalAatVolumeAtTrigger := 0,
      participantData := [] }
    investors)
  ensure (totals.remainingUsdcRemainder = 0) .ArithmeticOverflow
  ensure (totals.totalUsdcSpent = usdcPaidForRound) .ArithmeticOverflow
  return (closed, totals)

/-- `close_round`. -/
def closeRound (env : Env) (ctx : Context) (w : World) : Except TxError (World × Receipt) := do
  adminOnly ctx w.state
  ensure (w.state.roundStarted = true) .InvalidParameter
  ensure (0 < w.state.currentRoundWaln) .InvalidParameter
  match ctx.remainingAccounts with
  | recordInfo :: lockedInfo :: _ => do
    let roundIndex := w.state.roundCount
    ensure (recordInfo.key = .RoundRecord roundIndex) .InvalidRemainingAccounts
    ensure (lockedInfo.key = .RoundLockedWaln roundIndex) .InvalidRemainingAccounts
    let scale ← walnScale w.state.walnDecimals
    let unlock ← arith (checkedAddI64 ctx.now w.state.currentRoundLockPeriod)
    let (investors, totals) ← closePool scale w.state.currentRoundFloorPrice
      w.state.currentRoundWaln w.state.currentRoundUsdcSpent w.pool.investors
    let entries := sortByKey InvestorAlloc.investor totals.participantData
    let (treasury, lockedAccounts) ← writeRoundLockedWaln env w.treasury lockedInfo.lamports
      roundIndex unlock entries w.roundLockedWaln
    let (treasury, records) ← writeRoundRecord env treasury recordInfo.lamports
      { roundIndex := roundIndex, triggeredAt := ctx.now,
        walnPurchased := totals.totalWalnPurchased, usdcSpent := totals.totalUsdcSpent,
        totalAatVolumeAtTrigger := totals.totalAatVolumeAtTrigger,
        participantCount := entries.length, bump := env.bump (.RoundRecord roundIndex) }
      w.roundRecords
    let newDust ← arith (checkedSub w.state.currentRoundWaln totals.totalWalnPurchased)
    let roundCount ← arith (checkedAdd 64 w.state.roundCount 1)
    let lobby ← arith (checkedSub w.state.totalUsdcInLobby totals.totalUsdcSpent)
    let dust ← arith (checkedAdd 64 w.state.walnDustCarryover newDust)
    return (
      { w with
        state := { w.state with
          roundCount := roundCount
          currentRoundWaln := 0
          currentRoundUsdcSpent := 0
          totalUsdcInLobby := lobby
          totalUsdcLockedForRound := 0
          roundStarted := false
          walnDustCarryover := dust }
        pool := { investors := investors }
        treasury := treasury
        roundRecords := records
        roundLockedWaln := lockedAccounts },
      {})
  | _ => .error (.Program .InvalidRemainingAccounts)

/-- `close_round_record`: the admin reclaims the rent of a settled round's record. -/
def closeRoundRecord (env : Env) (ctx : Context) (roundIndex : ℕ) (w : World) :
    Except TxError (World × Receipt) := do
  adminOnly ctx w.state
  let account ← okOr .Constraint (lookup recordIndex roundIndex w.roundRecords)
  require (account.data.bump = env.bump (.RoundRecord roundIndex)) .Constraint
  let treasury ← okOr .SystemProgram (checkedAdd 64 w.treasury account.lamports)
  return ({ w with
    treasury := treasury
    roundRecords := w.roundRecords.filter fun a => recordIndex a ≠ roundIndex }, {})

end Floor
