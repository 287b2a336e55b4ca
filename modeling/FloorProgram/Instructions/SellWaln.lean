import FloorProgram.Utils
import FloorProgram.Instructions.StartRound

/-!
# Selling wALN

`sell_waln.rs`.  A sell goes through these stages, each a definition of its own.

* `planSale` — read the terms of the round (the live ones if no round is active), clamp the amount
  to what is left of the round, and reject amounts that are too small or would leave an unpayable
  remainder.
* `openRound` — start the round if there is none.
* `paySeller` — check the hook accounts, move wALN in and USDC out, and count both.
* `settleFullRound` — only if the round is now full: charge the locks, allocate the wALN, award the
  dust carried over, write the two round accounts, and try to start the next round.
-/

namespace Floor

open Checked Loop Keyed Search

/-! ## Validating the amount -/

/-- The terms a sell is made under. -/
structure SalePlan where
  needRoundStart : Bool
  floorPriceUsdc : ℕ
  roundSizeWaln : ℕ
  walnAmount : ℕ
  deriving DecidableEq, Repr

/-- The wALN left in the round after the sale must be zero or still worth some USDC. -/
def requirePayableRemainder (postSaleRemaining floorPriceUsdc walnDecimals : ℕ) :
    Except TxError Unit :=
  if postSaleRemaining = 0 then .ok ()
  else do
    let scale ← walnScale walnDecimals
    let postSaleUsdc ← mulDiv postSaleRemaining floorPriceUsdc scale
    ensure (0 < postSaleUsdc) .SellLeavesUnpayableDust

/-- The price a sell is made at: the live one before a round, the snapshot during it. -/
def ProgramState.effectivePrice (state : ProgramState) : ℕ :=
  if state.roundStarted then state.currentRoundFloorPrice else state.floorPriceUsdc

/-- The size of the round a sell goes into. -/
def ProgramState.effectiveSize (state : ProgramState) : ℕ :=
  if state.roundStarted then state.currentRoundSizeWaln else state.roundSizeWaln

/-- The wALN already sold into the round. -/
def ProgramState.effectiveWaln (state : ProgramState) : ℕ :=
  if state.roundStarted then state.currentRoundWaln else 0

/-- The first block of the handler: everything that is decided before a token moves. -/
def planSale (state : ProgramState) (walnDecimals : ℕ) (walnMint usdcMint : Pubkey)
    (maxWalnAmount : ℕ) : Except TxError SalePlan := do
  ensure (state.frozen = false) .ContractFrozen
  ensure (state.sellPaused = false) .SellPaused
  ensure (0 < maxWalnAmount) .ZeroAmount
  ensure (walnMint = state.walnMint) .InvalidMint
  ensure (usdcMint = state.usdcMint) .InvalidMint
  let remainingInRound ← arith (checkedSub state.effectiveSize state.effectiveWaln)
  let walnAmount := min maxWalnAmount remainingInRound
  ensure (0 < walnAmount) .ZeroAmount
  let postSaleRemaining ← arith (checkedSub remainingInRound walnAmount)
  requirePayableRemainder postSaleRemaining state.effectivePrice walnDecimals
  ensure (state.effectiveWaln ≠ 0 ∨ MIN_SELL_WALN ≤ walnAmount ∨ walnAmount = remainingInRound)
    .SellAmountTooSmall
  return { needRoundStart := !state.roundStarted, floorPriceUsdc := state.effectivePrice,
           roundSizeWaln := state.effectiveSize, walnAmount := walnAmount }

/-! ## Starting the round and paying the seller -/

/-- Start the round if the plan needs one: the pool and the USDC newly locked. -/
def openRound (pool : InvestorPool) (plan : SalePlan) (walnDecimals : ℕ) :
    Except TxError (InvestorPool × ℕ) :=
  if plan.needRoundStart then do
    let (investors, _, usdcLocked) ← committed
      (executeRoundStart pool.investors plan.roundSizeWaln plan.floorPriceUsdc walnDecimals)
    return ({ investors := investors }, usdcLocked)
  else .ok (pool, 0)

/-- Validate the hook accounts at the front of `remaining_accounts`, and return the rest. -/
def sellHookAccounts (env : Env) (ctx : Context) (walnMint : Pubkey) :
    Except TxError (List AccountInfo) :=
  match getHookProgramId env walnMint with
  | some hookProgramId => do
    require (8 ≤ ctx.remainingAccounts.length) .Panicked
    validateHookAccounts (ctx.remainingAccounts.take 8) walnMint (.Key ctx.signer) hookProgramId
    return ctx.remainingAccounts.drop 8
  | none => .ok ctx.remainingAccounts

/-- The snapshot a round is run under. -/
def ProgramState.snapshot (state : ProgramState) (floorPriceUsdc roundSizeWaln usdcLocked : ℕ) :
    ProgramState :=
  { state with
    currentRoundFloorPrice := floorPriceUsdc
    currentRoundSizeWaln := roundSizeWaln
    currentRoundLockPeriod := state.lockPeriodSeconds
    currentRoundUsdcSpent := 0
    totalUsdcLockedForRound := usdcLocked
    roundStarted := true }

/-- The state with the round opened, if the plan opens one. -/
def ProgramState.opened (state : ProgramState) (plan : SalePlan) (usdcLocked : ℕ) : ProgramState :=
  if plan.needRoundStart then state.snapshot plan.floorPriceUsdc plan.roundSizeWaln usdcLocked
  else state

/-- From the opened round to the updated counters: the accounts after the hook's, the USDC paid,
and the world. -/
def paySeller (env : Env) (ctx : Context) (walnMint : Pubkey) (walnDecimals : ℕ) (plan : SalePlan)
    (pool : InvestorPool) (usdcLocked : ℕ) (w : World) :
    Except TxError (List AccountInfo × ℕ × World) := do
  let scale ← walnScale walnDecimals
  let usdcOut ← mulDivU64 plan.walnAmount plan.floorPriceUsdc scale
  ensure (0 < usdcOut) .ZeroAmount
  let remaining ← sellHookAccounts env ctx walnMint
  let walnVault ← transferIn ctx w.walnVault plan.walnAmount
  let usdcVault ← transferOut ctx w.usdcVault usdcOut
  let state := w.state.opened plan usdcLocked
  let usdcSpent ← arith (checkedAdd 64 state.currentRoundUsdcSpent usdcOut)
  let roundWaln ← arith (checkedAdd 64 state.currentRoundWaln plan.walnAmount)
  return (remaining, usdcOut,
    { w with
      state := { state with currentRoundUsdcSpent := usdcSpent, currentRoundWaln := roundWaln }
      pool := pool
      usdcVault := usdcVault
      walnVault := walnVault })

/-! ## Settling a full round -/

/-- What the settlement loop accumulates. -/
structure SettleTotals where
  totalUsdcSpent : ℕ
  totalWalnPurchased : ℕ
  totalAatVolumeAtTrigger : ℕ
  participantCountForDust : ℕ
  participantData : List InvestorAlloc

def SettleTotals.zero : SettleTotals := ⟨0, 0, 0, 0, []⟩

/-- Charge one participant its whole lock, and allocate the wALN the lock buys. -/
def settleRecord (scale floorPriceUsdc : ℕ) (t : SettleTotals) (r : InvestorRecord) :
    Except TxError (InvestorRecord × SettleTotals) :=
  if r.usdcLockedCurrentRound = 0 then .ok (r, t)
  else do
    let count ← arith (checkedAdd 64 t.participantCountForDust 1)
    let aatVolume ← arith (checkedAdd 64 t.totalAatVolumeAtTrigger r.aatVolume)
    let baseWaln ← mulDivU64 r.usdcLockedCurrentRound scale floorPriceUsdc
    let committed ← arith (checkedAdd 64 r.usdcCommitted r.usdcLockedCurrentRound)
    let purchased ← arith (checkedAdd 64 r.walnPurchasedTotal baseWaln)
    let usdcSpent ← arith (checkedAdd 64 t.totalUsdcSpent r.usdcLockedCurrentRound)
    let walnPurchased ← arith (checkedAdd 64 t.totalWalnPurchased baseWaln)
    return ({ r with
        usdcCommitted := committed
        usdcLockedCurrentRound := 0
        walnPurchasedTotal := purchased },
      { totalUsdcSpent := usdcSpent
        totalWalnPurchased := walnPurchased
        totalAatVolumeAtTrigger := aatVolume
        participantCountForDust := count
        participantData := t.participantData ++ [⟨r.investor, baseWaln⟩] })

/-- Add the dust to the lifetime total of the winner's record, found again by key. -/
def creditWinner (winner : Pubkey) (dustPool : ℕ) (investors : List InvestorRecord) :
    Except TxError (List InvestorRecord) :=
  match lookup byInvestor winner investors with
  | none => .ok investors
  | some r => do
    let purchased ← arith (checkedAdd 64 r.walnPurchasedTotal dustPool)
    return modifyFirst byInvestor winner (fun r => { r with walnPurchasedTotal := purchased })
      investors

/-- Give the dust carried over to one participant, picked by the clock. -/
def awardDust (now : ℤ) (dustPool : ℕ) (investors : List InvestorRecord) (t : SettleTotals) :
    Except TxError (List InvestorRecord × SettleTotals) :=
  if 0 < dustPool ∧ 0 < t.participantCountForDust then
    let idx := (now % 2 ^ 64).toNat % t.participantCountForDust
    match t.participantData[idx]? with
    | none => .error .Panicked
    | some winner => do
      let amount ← arith (checkedAdd 64 winner.walnAmount dustPool)
      let total ← arith (checkedAdd 64 t.totalWalnPurchased dustPool)
      let investors' ← creditWinner winner.investor dustPool investors
      return (investors',
        { t with
          totalWalnPurchased := total
          participantData := t.participantData.set idx { winner with walnAmount := amount } })
  else .ok (investors, t)

/-- The entries of the round's account: positive amounts, sorted by key. -/
def claimableEntries (participantData : List InvestorAlloc) : List InvestorAlloc :=
  sortByKey InvestorAlloc.investor (participantData.filter fun a => 0 < a.walnAmount)

/-- Create the `RoundLockedWaln` account of a round, unless there is nothing to claim. -/
def writeRoundLockedWaln (env : Env) (treasury lamports roundIndex : ℕ) (unlock : ℤ)
    (entries : List InvestorAlloc) (accounts : List (Account RoundLockedWaln)) :
    Except TxError (ℕ × List (Account RoundLockedWaln)) :=
  if entries = [] then .ok (treasury, accounts)
  else do
    let (treasury', balance) ← openRoundAccount env treasury lamports
      (RoundLockedWaln.space entries.length) (lookup lockedIndex roundIndex accounts).isSome
    return (treasury', accounts ++
      [{ lamports := balance
         data := { roundIndex := roundIndex, bump := env.bump (.RoundLockedWaln roundIndex),
                   unlock := unlock, remainingToClaim := entries.length, investors := entries } }])

/-- Create the `RoundRecord` account of a round. -/
def writeRoundRecord (env : Env) (treasury lamports : ℕ) (record : RoundRecord)
    (accounts : List (Account RoundRecord)) : Except TxError (ℕ × List (Account RoundRecord)) := do
  let (treasury', balance) ← openRoundAccount env treasury lamports RoundRecord.space
    (lookup recordIndex record.roundIndex accounts).isSome
  return (treasury', accounts ++ [{ lamports := balance, data := record }])

/-- The `InvestorAllocated` event of one entry; the USDC figure is recomputed from the wALN. -/
def allocatedEvent (scale floorPriceUsdc roundIndex : ℕ) (unlock : ℤ) (a : InvestorAlloc) :
    Except TxError InvestorAllocated := do
  let usdcSpent ← mulDivU64 a.walnAmount floorPriceUsdc scale
  return { roundIndex := roundIndex, investor := a.investor, walnAmount := a.walnAmount,
           usdcSpent := usdcSpent, unlock := unlock }

/-- The carryover after a full round. -/
def dustCarryover (walnInRound dustPool totalWalnPurchased : ℕ) : Except TxError ℕ := do
  let available ← arith (checkedAdd 128 walnInRound dustPool)
  let rest ← arith (checkedSub available totalWalnPurchased)
  arith (tryFrom 64 rest)

/-- Try to start the next round with the live parameters.  Having nobody to start with, or a cap of
zero, is not an error of the sell. -/
def autoStart (walnDecimals : ℕ) (w : World) : Except TxError World :=
  match executeRoundStart w.pool.investors w.state.roundSizeWaln w.state.floorPriceUsdc
      walnDecimals with
  | (investors, .ok (_, usdcLocked)) =>
    .ok { w with
      pool := { investors := investors }
      state := w.state.snapshot w.state.floorPriceUsdc w.state.roundSizeWaln usdcLocked }
  | (investors, .error e) =>
    if e = .Program .NoEligibleInvestors ∨ e = .Program .InvalidParameter then
      .ok { w with
        pool := { investors := investors }
        state := { w.state with totalUsdcLockedForRound := 0 } }
    else .error e

/-- The two loops of the settlement over the pool. -/
def settlePool (scale floorPriceUsdc : ℕ) (now : ℤ) (dustPool : ℕ)
    (investors : List InvestorRecord) : Except TxError (List InvestorRecord × SettleTotals) := do
  let (charged, totals) ← committed
    (forMut (settleRecord scale floorPriceUsdc) SettleTotals.zero investors)
  awardDust now dustPool charged totals

/-- The settled world, before the next round is started. -/
def settleWorld (env : Env) (ctx : Context) (walnDecimals floorPriceUsdc : ℕ)
    (remaining : List AccountInfo) (w : World) :
    Except TxError (World × List InvestorAllocated × RoundClosed) :=
  match remaining with
  | recordInfo :: lockedInfo :: _ => do
    let roundIndex := w.state.roundCount
    let unlock ← arith (checkedAddI64 ctx.now w.state.currentRoundLockPeriod)
    ensure (recordInfo.key = .RoundRecord roundIndex) .InvalidRemainingAccounts
    ensure (lockedInfo.key = .RoundLockedWaln roundIndex) .InvalidRemainingAccounts
    let scale ← walnScale walnDecimals
    let (investors, totals) ←
      settlePool scale floorPriceUsdc ctx.now w.state.walnDustCarryover w.pool.investors
    let participantCount := totals.participantData.length
    let entries := claimableEntries totals.participantData
    let (treasury, lockedAccounts) ← writeRoundLockedWaln env w.treasury lockedInfo.lamports
      roundIndex unlock entries w.roundLockedWaln
    let allocated ← entries.mapM (allocatedEvent scale floorPriceUsdc roundIndex unlock)
    let (treasury, records) ← writeRoundRecord env treasury recordInfo.lamports
      { roundIndex := roundIndex, triggeredAt := ctx.now,
        walnPurchased := totals.totalWalnPurchased, usdcSpent := totals.totalUsdcSpent,
        totalAatVolumeAtTrigger := totals.totalAatVolumeAtTrigger,
        participantCount := participantCount, bump := env.bump (.RoundRecord roundIndex) }
      w.roundRecords
    let roundCount ← arith (checkedAdd 64 w.state.roundCount 1)
    let lobby ← arith (checkedSub w.state.totalUsdcInLobby totals.totalUsdcSpent)
    let dust ← dustCarryover w.state.currentRoundWaln w.state.walnDustCarryover
      totals.totalWalnPurchased
    return (
      { w with
        state := { w.state with
          roundCount := roundCount
          currentRoundWaln := 0
          currentRoundUsdcSpent := 0
          totalUsdcInLobby := lobby
          roundStarted := false
          walnDustCarryover := dust }
        pool := { investors := investors }
        treasury := treasury
        roundRecords := records
        roundLockedWaln := lockedAccounts },
      allocated,
      { roundIndex := roundIndex, walnPurchased := totals.totalWalnPurchased,
        usdcSpent := totals.totalUsdcSpent, participantCount := participantCount,
        unlock := unlock })
  | _ => .error (.Program .InvalidRemainingAccounts)

/-- Settle a full round and try to start the next one. -/
def settleFullRound (env : Env) (ctx : Context) (walnDecimals floorPriceUsdc : ℕ)
    (remaining : List AccountInfo) (w : World) :
    Except TxError (World × List InvestorAllocated × RoundClosed) := do
  let (settled, allocated, closed) ←
    settleWorld env ctx walnDecimals floorPriceUsdc remaining w
  let next ← autoStart walnDecimals settled
  return (next, allocated, closed)

/-! ## The instruction -/

/-- Everything a sell does before it looks whether the round is full. -/
def sellIntoRound (env : Env) (ctx : Context) (walnMint usdcMint : Pubkey) (maxWalnAmount : ℕ)
    (w : World) : Except TxError (SalePlan × List AccountInfo × ℕ × World) := do
  let walnDecimals := (env.mint walnMint).decimals.toNat
  let plan ← planSale w.state walnDecimals walnMint usdcMint maxWalnAmount
  let (pool, usdcLocked) ← openRound w.pool plan walnDecimals
  let (remaining, usdcOut, sold) ←
    paySeller env ctx walnMint walnDecimals plan pool usdcLocked w
  return (plan, remaining, usdcOut, sold)

/-- `sell_waln`. -/
def sellWaln (env : Env) (ctx : Context) (walnMint usdcMint : Pubkey) (maxWalnAmount : ℕ)
    (w : World) : Except TxError (World × Receipt) := do
  let (plan, remaining, usdcOut, sold) ←
    sellIntoRound env ctx walnMint usdcMint maxWalnAmount w
  if plan.roundSizeWaln ≤ sold.state.currentRoundWaln then do
    let (next, allocated, closed) ← settleFullRound env ctx
      (env.mint walnMint).decimals.toNat plan.floorPriceUsdc remaining sold
    return (next, { walnIn := plan.walnAmount, usdcOut := usdcOut, allocated := allocated,
                    roundClosed := some closed })
  else return (sold, { walnIn := plan.walnAmount, usdcOut := usdcOut })

end Floor
