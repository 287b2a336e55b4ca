import FloorProgram.Utils
import FloorProgram.Instructions.StartRound

/-!
# Administration

`initialize.rs`, `admin.rs` and `transfer_authority.rs`.
-/

namespace Floor

open Checked Loop Keyed

/-! ## Initialization -/

/-- `initialize`: only the program's upgrade authority may call it, and only once. -/
def initializeHandler (env : Env) (ctx : Context) (usdcMint walnMint : Pubkey)
    (floorPriceUsdc roundSizeWaln : ℕ) (lockPeriodSeconds : ℤ) : Except TxError World := do
  ensure (env.upgradeAuthority = some ctx.signer) .Unauthorized
  let walnDecimals := (env.mint walnMint).decimals.toNat
  ensure (0 < floorPriceUsdc) .InvalidParameter
  ensure (0 < roundSizeWaln) .InvalidParameter
  requireViableRoundParams roundSizeWaln floorPriceUsdc walnDecimals
  ensure (0 ≤ lockPeriodSeconds) .InvalidParameter
  ensure ((env.mint walnMint).transferFeeConfig = false) .InvalidParameter
  return {
    state := {
      admin := ctx.signer
      usdcMint := usdcMint
      walnMint := walnMint
      floorPriceUsdc := floorPriceUsdc
      roundSizeWaln := roundSizeWaln
      currentRoundWaln := 0
      totalUsdcInLobby := 0
      roundCount := 0
      lockPeriodSeconds := lockPeriodSeconds
      usdcWithdrawLockSeconds := 0
      currentRoundFloorPrice := floorPriceUsdc
      currentRoundSizeWaln := roundSizeWaln
      currentRoundLockPeriod := lockPeriodSeconds
      currentRoundUsdcSpent := 0
      totalAatVolume := 0
      walnDustCarryover := 0
      totalUsdcLockedForRound := 0
      pendingAdmin := 0
      sellPaused := false
      roundStarted := false
      walnDecimals := walnDecimals
      frozen := false }
    pool := { investors := [] }
    usdcVault := 0
    walnVault := 0
    treasury := 0
    roundRecords := []
    roundLockedWaln := []
    aatNfts := [] }

/-! ## Setters

All of them run under the admin constraint and write one field of the state.
-/

/-- An admin instruction that validates its argument and updates the state. -/
def adminSet (ctx : Context) (w : World) (check : Except TxError Unit)
    (update : ProgramState → ProgramState) : Except TxError (World × Receipt) := do
  adminOnly ctx w.state
  check
  return ({ w with state := update w.state }, {})

/-- `set_floor_price`: a positive price that leaves the rounds viable. -/
def setFloorPrice (ctx : Context) (newPriceUsdc : ℕ) (w : World) :
    Except TxError (World × Receipt) :=
  adminSet ctx w
    (do ensure (0 < newPriceUsdc) .InvalidParameter
        requireViableRoundParams w.state.roundSizeWaln newPriceUsdc w.state.walnDecimals)
    fun state => { state with floorPriceUsdc := newPriceUsdc }

/-- `set_round_size`: a positive size that leaves the rounds viable. -/
def setRoundSize (ctx : Context) (newRoundSizeWaln : ℕ) (w : World) :
    Except TxError (World × Receipt) :=
  adminSet ctx w
    (do ensure (0 < newRoundSizeWaln) .InvalidParameter
        requireViableRoundParams newRoundSizeWaln w.state.floorPriceUsdc w.state.walnDecimals)
    fun state => { state with roundSizeWaln := newRoundSizeWaln }

/-- `set_lock_period`: how long the wALN of later rounds stays locked. -/
def setLockPeriod (ctx : Context) (newLockPeriod : ℤ) (w : World) :
    Except TxError (World × Receipt) :=
  adminSet ctx w (ensure (0 ≤ newLockPeriod) .InvalidParameter)
    fun state => { state with lockPeriodSeconds := newLockPeriod }

/-- `set_usdc_withdraw_lock`: how long later deposits stay locked; zero turns the lock off. -/
def setUsdcWithdrawLock (ctx : Context) (newLockSeconds : ℤ) (w : World) :
    Except TxError (World × Receipt) :=
  adminSet ctx w (ensure (0 ≤ newLockSeconds) .InvalidParameter)
    fun state => { state with usdcWithdrawLockSeconds := newLockSeconds }

/-- `set_sell_paused`. -/
def setSellPaused (ctx : Context) (paused : Bool) (w : World) : Except TxError (World × Receipt) :=
  adminSet ctx w (.ok ()) fun state => { state with sellPaused := paused }

/-- `set_frozen`. -/
def setFrozen (ctx : Context) (frozen : Bool) (w : World) : Except TxError (World × Receipt) :=
  adminSet ctx w (.ok ()) fun state => { state with frozen := frozen }

/-- `transfer_authority`: nominate an admin, or nobody with the default key. -/
def transferAuthority (ctx : Context) (newAdmin : Pubkey) (w : World) :
    Except TxError (World × Receipt) :=
  adminSet ctx w (.ok ()) fun state => { state with pendingAdmin := newAdmin }

/-- `accept_authority`, signed by the pending admin; the default key means nobody is pending. -/
def acceptAuthority (ctx : Context) (w : World) : Except TxError (World × Receipt) := do
  ensure (w.state.pendingAdmin ≠ 0) .NoPendingAdmin
  ensure (w.state.pendingAdmin = ctx.signer) .NotPendingAdmin
  return ({ w with state := { w.state with admin := w.state.pendingAdmin, pendingAdmin := 0 } }, {})

/-- `set_investor_usdc_unlock`: move the withdraw lock of one investor, in either direction. -/
def setInvestorUsdcUnlock (ctx : Context) (investor : Pubkey) (newUnlockTs : ℤ) (w : World) :
    Except TxError (World × Receipt) := do
  adminOnly ctx w.state
  ensure ((lookup byInvestor investor w.pool.investors).isSome = true) .InvalidInvestor
  let investors := modifyFirst byInvestor investor (fun r => { r with usdcUnlockTs := newUnlockTs })
    w.pool.investors
  return ({ w with pool := { investors := investors } }, {})

/-! ## Rounds and the pool -/

/-- Return one investor's lock to the deposit. -/
def unlockRecord (_ : Unit) (r : InvestorRecord) : Except TxError (InvestorRecord × Unit) :=
  if r.usdcLockedCurrentRound = 0 then .ok (r, ())
  else do
    let deposited ← arith (checkedAdd 64 r.usdcDeposited r.usdcLockedCurrentRound)
    return ({ r with usdcDeposited := deposited, usdcLockedCurrentRound := 0 }, ())

/-- `cancel_round`: undo the start of a round into which nothing was sold. -/
def cancelRound (ctx : Context) (w : World) : Except TxError (World × Receipt) := do
  adminOnly ctx w.state
  ensure (w.state.roundStarted = true) .InvalidParameter
  ensure (w.state.currentRoundWaln = 0) .InvalidParameter
  let (investors, _) ← committed (forMut unlockRecord () w.pool.investors)
  return ({ w with
    state := { w.state with
      roundStarted := false
      currentRoundWaln := 0
      currentRoundUsdcSpent := 0
      totalUsdcLockedForRound := 0 }
    pool := { investors := investors } }, {})

/-- The refund of a removal, if there is one: the vault and the lobby total afterwards. -/
def payRefund (ctx : Context) (usdcVault totalUsdcInLobby refund : ℕ) : Except TxError (ℕ × ℕ) :=
  if 0 < refund then do
    let vault ← transferOut ctx usdcVault refund
    let lobby ← arith (checkedSub totalUsdcInLobby refund)
    return (vault, lobby)
  else .ok (usdcVault, totalUsdcInLobby)

/-- `remove_investor_from_pool`: refund an inactive investor and reclaim its slot. -/
def removeInvestorFromPool (ctx : Context) (investor usdcMint : Pubkey) (w : World) :
    Except TxError (World × Receipt) := do
  adminOnly ctx w.state
  ensure (usdcMint = w.state.usdcMint) .InvalidMint
  let idx ← okOr (.Program .InvalidInvestor) (position byInvestor investor w.pool.investors)
  let r ← okOr .Panicked w.pool.investors[idx]?
  ensure (r.aatVolume = 0 ∧ r.usdcLockedCurrentRound = 0) .InvestorNotInactive
  let (usdcVault, lobby) ← payRefund ctx w.usdcVault w.state.totalUsdcInLobby r.usdcDeposited
  return ({ w with
      state := { w.state with totalUsdcInLobby := lobby }
      pool := { investors := swapRemove idx w.pool.investors }
      usdcVault := usdcVault },
    { usdcOut := r.usdcDeposited })

/-! ## The treasury -/

/-- `fund_treasury`: the admin pays lamports in. -/
def fundTreasury (ctx : Context) (amount : ℕ) (w : World) : Except TxError (World × Receipt) := do
  adminOnly ctx w.state
  ensure (0 < amount) .ZeroAmount
  require (ctx.cpiAccepts = true) .SystemProgram
  let treasury ← okOr .SystemProgram (checkedAdd 64 w.treasury amount)
  return ({ w with treasury := treasury }, {})

/-- `withdraw_treasury`: the admin takes lamports out. -/
def withdrawTreasury (ctx : Context) (amount : ℕ) (w : World) :
    Except TxError (World × Receipt) := do
  adminOnly ctx w.state
  ensure (0 < amount) .ZeroAmount
  ensure (amount ≤ w.treasury) .InsufficientFunds
  let treasury ← okOr .SystemProgram (checkedSub w.treasury amount)
  return ({ w with treasury := treasury }, {})

end Floor
