import FloorProgram.Utils

/-!
# Claiming wALN

`claim_waln.rs`.  The entries of a round's account are sorted by key, so the claim finds its entry
by binary search, pays it out and sets it to zero.  The claim that leaves nothing to claim closes
the account.
-/

namespace Floor

open Checked Keyed Search

/-- The account after the claim of the entry at `idx`. -/
def RoundLockedWaln.claimed (rlw : RoundLockedWaln) (idx remainingToClaim : ℕ) : RoundLockedWaln :=
  { rlw with
    remainingToClaim := remainingToClaim
    investors := rlw.investors.modify idx fun a => { a with walnAmount := 0 } }

/-- Find, check and clear the entry of `investor`: the amount and the account afterwards. -/
def takeAllocation (now : ℤ) (investor : Pubkey) (rlw : RoundLockedWaln) :
    Except TxError (ℕ × RoundLockedWaln) := do
  ensure (rlw.unlock ≤ now) .NotYetUnlocked
  let idx ← okOr (.Program .InvalidInvestor)
    (binarySearch InvestorAlloc.investor investor rlw.investors)
  let alloc ← okOr .Panicked rlw.investors[idx]?
  ensure (0 < alloc.walnAmount) .AlreadyClaimed
  let remaining ← arith (checkedSub rlw.remainingToClaim 1)
  return (alloc.walnAmount, rlw.claimed idx remaining)

/-- The hook accounts of a claim are all of `remaining_accounts`. -/
def claimHookAccounts (env : Env) (ctx : Context) (walnMint : Pubkey) : Except TxError Unit :=
  match getHookProgramId env walnMint with
  | some hookProgramId =>
    validateHookAccounts ctx.remainingAccounts walnMint .ContractState hookProgramId
  | none => .ok ()

/-- Keep the account while something is left to claim; otherwise close it and return its lamports
to the treasury. -/
def storeClaimed (treasury roundIndex : ℕ) (account : Account RoundLockedWaln)
    (rlw : RoundLockedWaln) (accounts : List (Account RoundLockedWaln)) :
    Except TxError (ℕ × List (Account RoundLockedWaln)) :=
  if rlw.remainingToClaim = 0 then do
    let treasury' ← arith (checkedAdd 64 treasury account.lamports)
    return (treasury', accounts.filter fun a => lockedIndex a ≠ roundIndex)
  else .ok (treasury, modifyFirst lockedIndex roundIndex (fun a => { a with data := rlw }) accounts)

/-- `claim_waln`, signed by the investor. -/
def claimWaln (env : Env) (ctx : Context) (walnMint : Pubkey) (roundIndex : ℕ) (w : World) :
    Except TxError (World × Receipt) := do
  let account ← okOr .Constraint (lookup lockedIndex roundIndex w.roundLockedWaln)
  require (account.data.bump = env.bump (.RoundLockedWaln roundIndex)) .Constraint
  ensure (w.state.frozen = false) .ContractFrozen
  ensure (walnMint = w.state.walnMint) .InvalidMint
  let (walnAmount, rlw) ← takeAllocation ctx.now ctx.signer account.data
  claimHookAccounts env ctx walnMint
  let walnVault ← transferOut ctx w.walnVault walnAmount
  let (treasury, accounts) ← storeClaimed w.treasury roundIndex account rlw w.roundLockedWaln
  return ({ w with walnVault := walnVault, treasury := treasury, roundLockedWaln := accounts },
    { walnOut := walnAmount })

end Floor
