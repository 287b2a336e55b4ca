import FloorProgram.Core.Transition
import FloorProgram.Instructions.Lobby
import FloorProgram.Instructions.AatNft
import FloorProgram.Instructions.ClaimWaln
import FloorProgram.Instructions.Admin
import FloorProgram.Instructions.SellWaln
import FloorProgram.Instructions.CloseRound

/-!
# The program as a transition system

`lib.rs`: one constructor of `Instruction` per entry point, with the arguments as the machine
types the transaction decodes them into.  A transaction either succeeds and changes the world, or
fails and leaves it as it was, so the steps of the system are the successful transactions.

`Reachable env w` says that `w` can be reached from `initialize` by any sequence of transactions:
any signers, any clocks, any amounts.  `History env w₀ h w` is a run with its history.
-/

namespace Floor

/-- The entry points of the program, apart from `initialize`. -/
inductive Instruction
  | SetFloorPrice (newPriceUsdc : UInt64)
  | SetRoundSize (newRoundSizeWaln : UInt64)
  | SetLockPeriod (newLockPeriod : Int64)
  | SetUsdcWithdrawLock (newLockSeconds : Int64)
  | SetInvestorUsdcUnlock (investor : Pubkey) (newUnlockTs : Int64)
  | SetSellPaused (paused : Bool)
  | SetFrozen (frozen : Bool)
  | CancelRound
  | RemoveInvestorFromPool (investor usdcMint : Pubkey)
  | CloseRound
  | FundTreasury (amount : UInt64)
  | WithdrawTreasury (amount : UInt64)
  | DepositUsdc (usdcMint : Pubkey) (aatNft : AccountKey) (usdcAmount : UInt64)
  | WithdrawUsdc (usdcMint : Pubkey) (amount : UInt64)
  | SellWaln (walnMint usdcMint : Pubkey) (maxWalnAmount : UInt64)
  | ClaimWaln (walnMint : Pubkey) (roundIndex : UInt64)
  | MintAatNft (investor : Pubkey) (aatVolume : UInt64)
  | UpdateAatVolume (investor : Pubkey) (newVolume : UInt64)
  | TransferAuthority (newAdmin : Pubkey)
  | AcceptAuthority
  | CloseRoundRecord (roundIndex : UInt64)

/-- Execute one instruction. -/
def exec (env : Env) (ctx : Context) (i : Instruction) (w : World) :
    Except TxError (World × Receipt) :=
  match i with
  | .SetFloorPrice p => setFloorPrice ctx p.toNat w
  | .SetRoundSize n => setRoundSize ctx n.toNat w
  | .SetLockPeriod t => setLockPeriod ctx t.toInt w
  | .SetUsdcWithdrawLock t => setUsdcWithdrawLock ctx t.toInt w
  | .SetInvestorUsdcUnlock k t => setInvestorUsdcUnlock ctx k t.toInt w
  | .SetSellPaused b => setSellPaused ctx b w
  | .SetFrozen b => setFrozen ctx b w
  | .CancelRound => cancelRound ctx w
  | .RemoveInvestorFromPool k m => removeInvestorFromPool ctx k m w
  | .CloseRound => closeRound env ctx w
  | .FundTreasury a => fundTreasury ctx a.toNat w
  | .WithdrawTreasury a => withdrawTreasury ctx a.toNat w
  | .DepositUsdc m n a => depositUsdc ctx m n a.toNat w
  | .WithdrawUsdc m a => withdrawUsdc ctx m a.toNat w
  | .SellWaln wm um a => sellWaln env ctx wm um a.toNat w
  | .ClaimWaln m i => claimWaln env ctx m i.toNat w
  | .MintAatNft k v => mintAatNft ctx k v.toNat w
  | .UpdateAatVolume k v => updateAatVolume ctx k v.toNat w
  | .TransferAuthority k => transferAuthority ctx k w
  | .AcceptAuthority => acceptAuthority ctx w
  | .CloseRoundRecord i => closeRoundRecord env ctx i.toNat w

/-- A transaction: its context, its instruction, and what it moved. -/
structure Tx where
  ctx : Context
  instr : Instruction
  receipt : Receipt

/-- A fresh deployment. -/
def Initial (env : Env) (w : World) : Prop :=
  ∃ (ctx : Context) (usdcMint walnMint : Pubkey) (price size : UInt64) (lock : Int64),
    initializeHandler env ctx usdcMint walnMint price.toNat size.toNat lock.toInt = .ok w

/-- A successful transaction. -/
def Step (env : Env) (w : World) (tx : Tx) (w' : World) : Prop :=
  exec env tx.ctx tx.instr w = .ok (w', tx.receipt)

/-- The worlds that can be reached from a fresh deployment. -/
abbrev Reachable (env : Env) : World → Prop := Transition.Reachable (Initial env) (Step env)

/-- A run, with its history, newest transaction first. -/
abbrev History (env : Env) : World → List (Transition.Entry World Tx) → World → Prop :=
  Transition.Trace (Step env)

/-! ## Running it -/

/-- Run a list of instructions, all of which must succeed, and record the history. -/
def replay (env : Env) :
    List (Context × Instruction) → List (Transition.Entry World Tx) → World →
      Except TxError (List (Transition.Entry World Tx) × World)
  | [], h, w => .ok (h, w)
  | (ctx, i) :: rest, h, w =>
    match exec env ctx i w with
    | .ok (w', r) => replay env rest (⟨w, ⟨ctx, i, r⟩, w'⟩ :: h) w'
    | .error e => .error e

lemma history_of_replay {env : Env} {w₀ w w' : World} {l : List (Context × Instruction)}
    {h h' : List (Transition.Entry World Tx)} (hw : History env w₀ h w)
    (hrun : replay env l h w = .ok (h', w')) : History env w₀ h' w' := by
  induction l generalizing h w with
  | nil =>
      simp only [replay, Except.ok.injEq, Prod.mk.injEq] at hrun
      obtain ⟨rfl, rfl⟩ := hrun
      exact hw
  | cons p l ih =>
      obtain ⟨ctx, i⟩ := p
      rw [replay] at hrun
      split at hrun
      · rename_i w₁ r hexec
        have hstep : Step env w ⟨ctx, i, r⟩ w₁ := hexec
        exact ih (hw.cons hstep) hrun
      · simp at hrun

/-- Deploy with a price, a round size and a lock period, and run a list of instructions. -/
def deploy (env : Env) (ctx : Context) (usdcMint walnMint : Pubkey) (price size : UInt64)
    (lock : Int64) (l : List (Context × Instruction)) :
    Except TxError (World × List (Transition.Entry World Tx) × World) := do
  let w₀ ← initializeHandler env ctx usdcMint walnMint price.toNat size.toNat lock.toInt
  let (h, w) ← replay env l [] w₀
  return (w₀, h, w)

/-- A check on the outcome of a deployment that ran to its end. -/
def Outcome (x : Except TxError (World × List (Transition.Entry World Tx) × World))
    (P : World → List (Transition.Entry World Tx) → World → Bool) : Bool :=
  match x with
  | .ok (w₀, h, w) => P w₀ h w
  | .error _ => false

/-- What a deployment that ran to its end reached is a history. -/
lemma exists_history {env : Env} {ctx : Context} {usdcMint walnMint : Pubkey} {price size : UInt64}
    {lock : Int64} {l : List (Context × Instruction)}
    {P : World → List (Transition.Entry World Tx) → World → Bool}
    (h : Outcome (deploy env ctx usdcMint walnMint price size lock l) P = true) :
    ∃ w₀ h w, Initial env w₀ ∧ History env w₀ h w ∧ P w₀ h w = true := by
  unfold Outcome at h
  split at h
  · rename_i w₀ hist w hdeploy
    simp only [deploy, Checked.bind_eq_ok, Prod.exists, Checked.pure_eq_ok, Prod.mk.injEq]
      at hdeploy
    obtain ⟨w₀', hinit, hist', w', hrun, rfl, rfl, rfl⟩ := hdeploy
    exact ⟨w₀', hist', w', ⟨ctx, usdcMint, walnMint, price, size, lock, hinit⟩,
      history_of_replay (.nil _) hrun, h⟩
  · simp at h

lemma History.reachable {env : Env} {w₀ w : World} {h : List (Transition.Entry World Tx)}
    (hh : History env w₀ h w) (hw₀ : Initial env w₀) : Reachable env w :=
  Transition.Trace.reachable hh (.start hw₀)

/-- The last step of a run settles a round. -/
def settlesLast (check : Transition.Entry World Tx → List (Transition.Entry World Tx) → Bool) :
    List (Transition.Entry World Tx) → Bool
  | e :: h => decide (e.post.state.roundCount ≠ e.pre.state.roundCount) && check e h
  | [] => false

/-! ### A small deployment

The admin is key `1`, the mints are `10` and `11`, and the treasury gets one SOL.
-/

/-- Mints with `decimals` decimals and without hooks.  The rent is the chain's default: twice
`3480` lamports for every byte, with `128` bytes of overhead for each account. -/
def sampleEnv (decimals : UInt8) : Env :=
  { mint := fun _ => ⟨decimals, none, false⟩
    minimumBalance := fun n => (128 + n) * 6960
    bump := fun _ => 255
    upgradeAuthority := some 1 }

/-- A transaction at time `now` signed by `k`, who is rich. -/
def signedBy (k : Pubkey) (now : ℤ) (accounts : List AccountInfo) : Context :=
  { signer := k, now := now, payerBalance := 10 ^ 18, cpiAccepts := true,
    remainingAccounts := accounts }

/-- The accounts that settle round `i`. -/
def roundAccounts (i : ℕ) : List AccountInfo :=
  [⟨.RoundRecord i, 0, none⟩, ⟨.RoundLockedWaln i, 0, none⟩]

/-- Three investors with equal volumes and deposits. -/
def threeInvestors (volume deposit : UInt64) : List (Context × Instruction) :=
  [(signedBy 1 1 [], .FundTreasury 1000000000),
   (signedBy 1 1 [], .MintAatNft 21 volume),
   (signedBy 1 1 [], .MintAatNft 22 volume),
   (signedBy 1 1 [], .MintAatNft 23 volume),
   (signedBy 21 1 [], .DepositUsdc 10 (.AatNft 21) deposit),
   (signedBy 22 1 [], .DepositUsdc 10 (.AatNft 22) deposit),
   (signedBy 23 1 [], .DepositUsdc 10 (.AatNft 23) deposit)]

/-- A sell of up to `maxWaln` into round `i`. -/
def sell (i : ℕ) (maxWaln : UInt64) : Context × Instruction :=
  (signedBy 99 1 (roundAccounts i), .SellWaln 11 10 maxWaln)

/-- Runs of the small deployment, with a lock period of `100`. -/
lemma exists_sample_history (decimals : UInt8) (price size : UInt64)
    (l : List (Context × Instruction)) (P : World → List (Transition.Entry World Tx) → World → Bool)
    (h : Outcome (deploy (sampleEnv decimals) (signedBy 1 1 []) 10 11 price size 100 l) P = true) :
    ∃ w₀ h w, Initial (sampleEnv decimals) w₀ ∧ History (sampleEnv decimals) w₀ h w ∧
      P w₀ h w = true :=
  exists_history h

end Floor
