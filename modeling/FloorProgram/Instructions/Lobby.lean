import FloorProgram.Utils

/-!
# The lobby: depositing and withdrawing USDC

`deposit_usdc.rs` and `withdraw_usdc.rs`.  A mint other than that of the vault fails in a constraint
on the vault already; here it fails in the handler's own check, as `InvalidMint`.
-/

namespace Floor

open Checked Keyed

/-- `u64::MAX`, which `withdraw_usdc` reads as "everything". -/
def U64_MAX : ℕ := 2 ^ 64 - 1

/-- The unlock timestamp a deposit leaves behind.  It only ever moves forward, and not at all while
no withdraw lock is configured. -/
def extendUnlock (now withdrawLockSeconds unlockTs : ℤ) : Except TxError ℤ :=
  if 0 < withdrawLockSeconds then do
    let newUnlockTs ← arith (checkedAddI64 now withdrawLockSeconds)
    return max unlockTs newUnlockTs
  else .ok unlockTs

/-- The record after a deposit. -/
def creditDeposit (now withdrawLockSeconds : ℤ) (aatVolume usdcAmount : ℕ) (r : InvestorRecord) :
    Except TxError InvestorRecord := do
  let deposited ← arith (checkedAdd 64 r.usdcDeposited usdcAmount)
  let unlockTs ← extendUnlock now withdrawLockSeconds r.usdcUnlockTs
  return { r with aatVolume := aatVolume, usdcDeposited := deposited, usdcUnlockTs := unlockTs }

/-- Find the investor's slot, or take the next free one, and credit the deposit there. -/
def depositInto (now withdrawLockSeconds : ℤ) (investor : Pubkey) (aatVolume usdcAmount : ℕ)
    (investors : List InvestorRecord) : Except TxError (List InvestorRecord) :=
  match lookup byInvestor investor investors with
  | some r => do
    let r' ← creditDeposit now withdrawLockSeconds aatVolume usdcAmount r
    return modifyFirst byInvestor investor (fun _ => r') investors
  | none => do
    let r' ← creditDeposit now withdrawLockSeconds aatVolume usdcAmount
      (InvestorRecord.empty investor)
    return investors ++ [r']

/-- `deposit_usdc`, signed by the investor. -/
def depositUsdc (ctx : Context) (usdcMint : Pubkey) (aatNft : AccountKey) (usdcAmount : ℕ)
    (w : World) : Except TxError (World × Receipt) := do
  associatedAatAccount ctx aatNft (lookup nftHolder ctx.signer w.aatNfts).isSome
  ensure (w.state.frozen = false) .ContractFrozen
  ensure (0 < usdcAmount) .ZeroAmount
  ensure (usdcMint = w.state.usdcMint) .InvalidMint
  let nft ← verifyAatNftAndGetAllocation w.aatNfts aatNft ctx.signer
  ensure (0 < nft.aatVolume) .ZeroAatAllocation
  ensure (nft.amount = 1) .NoAatNft
  ensure (w.pool.count < MAX_INVESTORS ∨
    (lookup byInvestor ctx.signer w.pool.investors).isSome = true) .InvestorPoolFull
  let usdcVault ← transferIn ctx w.usdcVault usdcAmount
  let investors ← depositInto ctx.now w.state.usdcWithdrawLockSeconds ctx.signer nft.aatVolume
    usdcAmount w.pool.investors
  let lobby ← arith (checkedAdd 64 w.state.totalUsdcInLobby usdcAmount)
  return ({ w with
      state := { w.state with totalUsdcInLobby := lobby }
      pool := { investors := investors }
      usdcVault := usdcVault },
    { usdcIn := usdcAmount })

/-- `withdraw_usdc`, signed by the investor. -/
def withdrawUsdc (ctx : Context) (usdcMint : Pubkey) (amount : ℕ) (w : World) :
    Except TxError (World × Receipt) := do
  ensure (w.state.frozen = false) .ContractFrozen
  ensure (usdcMint = w.state.usdcMint) .InvalidMint
  let r ← okOr (.Program .InvalidInvestor) (lookup byInvestor ctx.signer w.pool.investors)
  ensure (r.usdcUnlockTs ≤ ctx.now) .UsdcLocked
  let withdrawAmount := if amount = U64_MAX then r.usdcDeposited else amount
  ensure (0 < withdrawAmount) .ZeroAmount
  ensure (withdrawAmount ≤ r.usdcDeposited) .InsufficientFunds
  let deposited ← arith (checkedSub r.usdcDeposited withdrawAmount)
  let usdcVault ← transferOut ctx w.usdcVault withdrawAmount
  let lobby ← arith (checkedSub w.state.totalUsdcInLobby withdrawAmount)
  let investors := modifyFirst byInvestor ctx.signer
    (fun r => { r with usdcDeposited := deposited }) w.pool.investors
  return ({ w with
      state := { w.state with totalUsdcInLobby := lobby }
      pool := { investors := investors }
      usdcVault := usdcVault },
    { usdcOut := withdrawAmount })

end Floor
