import FloorProgram.Program
import FloorProgram.Invariant

/-!
# What a transaction can do

One case per kind of change.  `Effect env w ctx i w' r` says that instruction `i`, run in `w`, may
lead to `w'` with receipt `r`; every later proof about transactions is a case analysis on it, and
none looks at the code of an instruction again.

A sell is made of phases: a round may be begun (`Begun`), the seller is paid (`Paid`), and if that
fills the round it is settled (`Settled`) and the next one may be begun.  A forced close is a
`Settled` on its own.
-/

namespace Floor

open Checked Loop Keyed Search ProRata

/-! ## The phases of a round -/

/-- A round is begun with the live parameters. -/
def Begun (env : Env) (w w' : World) : Prop :=
  ∃ investors volume locked,
    executeRoundStart w.pool.investors w.state.roundSizeWaln w.state.floorPriceUsdc (w.decimals env)
      = (investors, .ok (volume, locked)) ∧
    w' = { w with
      pool := { investors := investors }
      state := w.state.snapshot w.state.floorPriceUsdc w.state.roundSizeWaln locked }

/-- A sell goes into the running round, or begins one. -/
def Opened (env : Env) (w w' : World) : Prop :=
  (w.state.roundStarted = true ∧ w' = w) ∨ (w.state.roundStarted = false ∧ Begun env w w')

/-- A seller who offers up to `maxWalnAmount` is paid `usdcOut` for `walnAmount`. -/
structure Paid (env : Env) (maxWalnAmount walnAmount usdcOut : ℕ) (w w' : World) : Prop where
  started : w.state.roundStarted = true
  waln_le : w.state.currentRoundWaln ≤ w.state.currentRoundSizeWaln
  amount : walnAmount
    = min maxWalnAmount (w.state.currentRoundSizeWaln - w.state.currentRoundWaln)
  amount_pos : 0 < walnAmount
  payable : w.state.currentRoundSizeWaln - w.state.currentRoundWaln - walnAmount = 0 ∨
    0 < (w.state.currentRoundSizeWaln - w.state.currentRoundWaln - walnAmount)
      * w.state.currentRoundFloorPrice / 10 ^ w.decimals env
  large : w.state.currentRoundWaln ≠ 0 ∨ MIN_SELL_WALN ≤ walnAmount ∨
    walnAmount = w.state.currentRoundSizeWaln - w.state.currentRoundWaln
  out : usdcOut = walnAmount * w.state.currentRoundFloorPrice / 10 ^ w.decimals env
  out_pos : 0 < usdcOut
  usdc_le : usdcOut ≤ w.usdcVault
  waln_lt : w.walnVault + walnAmount < 2 ^ 64
  world : w' = { w with
    state := { w.state with
      currentRoundUsdcSpent := w.state.currentRoundUsdcSpent + usdcOut
      currentRoundWaln := w.state.currentRoundWaln + walnAmount }
    usdcVault := w.usdcVault - usdcOut
    walnVault := w.walnVault + walnAmount }

/-- The round is settled at time `now`: `usdc` is charged to the participants, `entries` are what
they may claim, and `dust` is carried over. -/
structure Settled (env : Env) (now : ℤ) (entries : List InvestorAlloc) (usdc dust : ℕ)
    (w w' : World) : Prop where
  settlement : Settlement w.pool.investors w'.pool.investors entries usdc
  waln : entriesWaln entries + dust = w.state.currentRoundWaln + w.state.walnDustCarryover
  unlock : now + w.state.currentRoundLockPeriod < 2 ^ 63
  state : w'.state = { w.state with
    roundCount := w.state.roundCount + 1
    currentRoundWaln := 0
    currentRoundUsdcSpent := 0
    totalUsdcInLobby := w.state.totalUsdcInLobby - usdc
    totalUsdcLockedForRound := 0
    roundStarted := false
    walnDustCarryover := dust }
  usdcVault : w'.usdcVault = w.usdcVault
  walnVault : w'.walnVault = w.walnVault
  aatNfts : w'.aatNfts = w.aatNfts
  account : ∃ lamports, w'.roundLockedWaln = w.roundLockedWaln ++
    [{ lamports := lamports
       data := { roundIndex := w.state.roundCount
                 bump := env.bump (.RoundLockedWaln w.state.roundCount)
                 unlock := now + w.state.currentRoundLockPeriod
                 remainingToClaim := entries.length
                 investors := entries } }]
  record : ∃ lamports volume, w'.roundRecords = w.roundRecords ++
    [{ lamports := lamports
       data := { roundIndex := w.state.roundCount, triggeredAt := now,
                 walnPurchased := entriesWaln entries, usdcSpent := usdc,
                 totalAatVolumeAtTrigger := volume, participantCount := entries.length,
                 bump := env.bump (.RoundRecord w.state.roundCount) } }]

/-- After a settlement the next round is begun, if there is anybody to begin it with. -/
def AutoStarted (env : Env) (w w' : World) : Prop :=
  Begun env w w' ∨
    (w' = w ∧ ∃ e, (executeRoundStart w.pool.investors w.state.roundSizeWaln
      w.state.floorPriceUsdc (w.decimals env)).2 = .error e)

/-! ## Changes to one record -/

/-- A record after a deposit. -/
def creditedRecord (aatVolume usdcAmount : ℕ) (unlockTs : ℤ) (r : InvestorRecord) :
    InvestorRecord :=
  { r with
    aatVolume := aatVolume
    usdcDeposited := r.usdcDeposited + usdcAmount
    usdcUnlockTs := unlockTs }

/-- The amount a withdrawal takes from a record: what was asked for, or everything. -/
def withdrawAmount (amount : ℕ) (r : InvestorRecord) : ℕ :=
  if amount = U64_MAX then r.usdcDeposited else amount

/-- A record after a withdrawal. -/
def debitedRecord (amount : ℕ) (r : InvestorRecord) : InvestorRecord :=
  { r with usdcDeposited := r.usdcDeposited - amount }

/-- A record with the withdraw lock the admin set. -/
def relockedRecord (unlockTs : ℤ) (r : InvestorRecord) : InvestorRecord :=
  { r with usdcUnlockTs := unlockTs }

/-- A record with the volume the admin set. -/
def revaluedRecord (aatVolume : ℕ) (r : InvestorRecord) : InvestorRecord :=
  { r with aatVolume := aatVolume }

/-- The pool with the record of `k` rewritten. -/
def World.updateInvestor (k : Pubkey) (f : InvestorRecord → InvestorRecord) (w : World) :
    InvestorPool :=
  { investors := modifyFirst byInvestor k f w.pool.investors }

/-- The admin instructions that only change settings. -/
def Instruction.configures : Instruction → Bool
  | .SetFloorPrice _ | .SetRoundSize _ | .SetLockPeriod _ | .SetUsdcWithdrawLock _
  | .SetSellPaused _ | .SetFrozen _ | .TransferAuthority _ | .AcceptAuthority => true
  | _ => false

/-- What these instructions write. -/
structure Settings where
  admin : Pubkey
  pendingAdmin : Pubkey
  floorPriceUsdc : ℕ
  roundSizeWaln : ℕ
  lockPeriodSeconds : ℤ
  usdcWithdrawLockSeconds : ℤ
  sellPaused : Bool
  frozen : Bool

/-- The settings of a state. -/
def ProgramState.settings (s : ProgramState) : Settings :=
  ⟨s.admin, s.pendingAdmin, s.floorPriceUsdc, s.roundSizeWaln, s.lockPeriodSeconds,
    s.usdcWithdrawLockSeconds, s.sellPaused, s.frozen⟩

/-- The state with other settings. -/
def ProgramState.configured (s : ProgramState) (c : Settings) : ProgramState :=
  { s with
    admin := c.admin
    pendingAdmin := c.pendingAdmin
    floorPriceUsdc := c.floorPriceUsdc
    roundSizeWaln := c.roundSizeWaln
    lockPeriodSeconds := c.lockPeriodSeconds
    usdcWithdrawLockSeconds := c.usdcWithdrawLockSeconds
    sellPaused := c.sellPaused
    frozen := c.frozen }

/-- The admin instructions that only move lamports. -/
def Instruction.managesRent : Instruction → Bool
  | .FundTreasury _ | .WithdrawTreasury _ | .CloseRoundRecord _ => true
  | _ => false

/-! ## The cases -/

/-- **What a successful transaction can do.** -/
inductive Effect (env : Env) (w : World) (ctx : Context) :
    Instruction → World → Receipt → Prop
  | Configure {i : Instruction} {c : Settings} (hi : i.configures = true)
      (hviable : Viable (w.decimals env) (w.state.configured c)) :
      Effect env w ctx i { w with state := w.state.configured c } {}
  | ManageRent {i : Instruction} {treasury : ℕ} {records : List (Account RoundRecord)}
      (hi : i.managesRent = true) (hrecords : records.Sublist w.roundRecords) :
      Effect env w ctx i { w with treasury := treasury, roundRecords := records } {}
  | SetUnlock {k : Pubkey} {ts : Int64} {r : InvestorRecord}
      (hr : lookup byInvestor k w.pool.investors = some r) :
      Effect env w ctx (.SetInvestorUsdcUnlock k ts)
        { w with pool := w.updateInvestor k (relockedRecord ts.toInt) } {}
  | Deposit {m : Pubkey} {n : AccountKey} {a : UInt64} {nft : AatNft} {r : InvestorRecord} {ts : ℤ}
      (hnft : lookup nftHolder ctx.signer w.aatNfts = some nft)
      (hr : lookup byInvestor ctx.signer w.pool.investors = some r)
      (hts : extendUnlock ctx.now w.state.usdcWithdrawLockSeconds r.usdcUnlockTs = .ok ts)
      (hlobby : w.state.totalUsdcInLobby + a.toNat < 2 ^ 64) :
      Effect env w ctx (.DepositUsdc m n a)
        { w with
          state := { w.state with totalUsdcInLobby := w.state.totalUsdcInLobby + a.toNat }
          pool := w.updateInvestor ctx.signer (creditedRecord nft.aatVolume a.toNat ts)
          usdcVault := w.usdcVault + a.toNat }
        { usdcIn := a.toNat }
  | Join {m : Pubkey} {n : AccountKey} {a : UInt64} {nft : AatNft} {ts : ℤ}
      (hnft : lookup nftHolder ctx.signer w.aatNfts = some nft)
      (hnew : lookup byInvestor ctx.signer w.pool.investors = none)
      (hcount : w.pool.investors.length < MAX_INVESTORS)
      (hts : extendUnlock ctx.now w.state.usdcWithdrawLockSeconds 0 = .ok ts)
      (hlobby : w.state.totalUsdcInLobby + a.toNat < 2 ^ 64) :
      Effect env w ctx (.DepositUsdc m n a)
        { w with
          state := { w.state with totalUsdcInLobby := w.state.totalUsdcInLobby + a.toNat }
          pool :=
            { investors := w.pool.investors ++
                [creditedRecord nft.aatVolume a.toNat ts (InvestorRecord.empty ctx.signer)] }
          usdcVault := w.usdcVault + a.toNat }
        { usdcIn := a.toNat }
  | Withdraw {m : Pubkey} {a : UInt64} {amount : ℕ} {r : InvestorRecord}
      (hr : lookup byInvestor ctx.signer w.pool.investors = some r)
      (hts : r.usdcUnlockTs ≤ ctx.now) (hle : amount ≤ r.usdcDeposited)
      (hvault : amount ≤ w.usdcVault) (hamount : amount = withdrawAmount a.toNat r)
      (hpos : 0 < amount) :
      Effect env w ctx (.WithdrawUsdc m a)
        { w with
          state := { w.state with totalUsdcInLobby := w.state.totalUsdcInLobby - amount }
          pool := w.updateInvestor ctx.signer (debitedRecord amount)
          usdcVault := w.usdcVault - amount }
        { usdcOut := amount }
  | Remove {k m : Pubkey} {i : ℕ} {r : InvestorRecord} (hi : i < w.pool.investors.length)
      (hr : w.pool.investors[i] = r) (hk : r.investor = k)
      (hlock : r.usdcLockedCurrentRound = 0) (hvault : r.usdcDeposited ≤ w.usdcVault) :
      Effect env w ctx (.RemoveInvestorFromPool k m)
        { w with
          state := { w.state with totalUsdcInLobby := w.state.totalUsdcInLobby - r.usdcDeposited }
          pool := { investors := swapRemove i w.pool.investors }
          usdcVault := w.usdcVault - r.usdcDeposited }
        { usdcOut := r.usdcDeposited }
  | Cancel (hstarted : w.state.roundStarted = true) (hempty : w.state.currentRoundWaln = 0) :
      Effect env w ctx .CancelRound
        { w with
          state := { w.state with
            roundStarted := false
            currentRoundWaln := 0
            currentRoundUsdcSpent := 0
            totalUsdcLockedForRound := 0 }
          pool := { investors := w.pool.investors.map unlockedRecord } } {}
  | Close {entries : List InvestorAlloc} {w' : World} (hstarted : w.state.roundStarted = true)
      (hsold : 0 < w.state.currentRoundWaln)
      (hsettled : Settled env ctx.now entries w.state.currentRoundUsdcSpent
        w.state.walnDustCarryover w w') :
      Effect env w ctx .CloseRound w' {}
  | Sell {wm um : Pubkey} {maxWaln : UInt64} {walnAmount usdcOut : ℕ} {w₁ w' : World}
      (hopen : Opened env w w₁) (hpaid : Paid env maxWaln.toNat walnAmount usdcOut w₁ w')
      (hpart : w'.state.currentRoundWaln < w'.state.currentRoundSizeWaln) :
      Effect env w ctx (.SellWaln wm um maxWaln) w' { walnIn := walnAmount, usdcOut := usdcOut }
  | SellFull {wm um : Pubkey} {maxWaln : UInt64} {walnAmount usdcOut : ℕ} {w₁ w₂ w₃ w' : World}
      {entries : List InvestorAlloc} {dust : ℕ} {allocated : List InvestorAllocated}
      (hopen : Opened env w w₁)
      (hpaid : Paid env maxWaln.toNat walnAmount usdcOut w₁ w₂)
      (hfull : w₂.state.currentRoundWaln = w₂.state.currentRoundSizeWaln)
      (hsettled : Settled env ctx.now entries (lockedUsdc w₂.pool.investors) dust w₂ w₃)
      (hallocated : entries.mapM (allocatedEvent (10 ^ w.decimals env)
        w₂.state.currentRoundFloorPrice w₂.state.roundCount
        (ctx.now + w₂.state.currentRoundLockPeriod)) = .ok allocated)
      (hnext : AutoStarted env w₃ w') :
      Effect env w ctx (.SellWaln wm um maxWaln) w'
        { walnIn := walnAmount, usdcOut := usdcOut, allocated := allocated,
          roundClosed := some
            { roundIndex := w₂.state.roundCount
              walnPurchased := entriesWaln entries
              usdcSpent := lockedUsdc w₂.pool.investors
              participantCount := entries.length
              unlock := ctx.now + w₂.state.currentRoundLockPeriod } }
  | Claim {m : Pubkey} {i : UInt64} {account : Account RoundLockedWaln} {idx : ℕ}
      {a : InvestorAlloc} {treasury : ℕ} {accounts : List (Account RoundLockedWaln)}
      (haccount : lookup lockedIndex i.toNat w.roundLockedWaln = some account)
      (hunlock : account.data.unlock ≤ ctx.now)
      (hidx : binarySearch InvestorAlloc.investor ctx.signer account.data.investors = some idx)
      (ha : account.data.investors[idx]? = some a) (hpos : 0 < a.walnAmount)
      (hrem : 1 ≤ account.data.remainingToClaim) (hvault : a.walnAmount ≤ w.walnVault)
      (hstore : storeClaimed w.treasury i.toNat account
        (account.data.claimed idx (account.data.remainingToClaim - 1)) w.roundLockedWaln
          = .ok (treasury, accounts)) :
      Effect env w ctx (.ClaimWaln m i)
        { w with
          walnVault := w.walnVault - a.walnAmount
          treasury := treasury
          roundLockedWaln := accounts }
        { walnOut := a.walnAmount }
  | Mint {k : Pubkey} {v : UInt64} (hnew : lookup nftHolder k w.aatNfts = none)
      (htotal : w.state.totalAatVolume + v.toNat ≤ MAX_TOTAL_AAT_VOLUME) :
      Effect env w ctx (.MintAatNft k v)
        { w with
          state := { w.state with totalAatVolume := w.state.totalAatVolume + v.toNat }
          aatNfts := w.aatNfts ++ [{ investor := k, aatVolume := v.toNat, amount := 1 }] } {}
  | UpdateVolume {k : Pubkey} {v : UInt64} {nft : AatNft}
      (hidle : w.state.roundStarted = false)
      (hnft : lookup nftHolder k w.aatNfts = some nft)
      (hle : nft.aatVolume ≤ w.state.totalAatVolume)
      (htotal : w.state.totalAatVolume - nft.aatVolume + v.toNat ≤ MAX_TOTAL_AAT_VOLUME) :
      Effect env w ctx (.UpdateAatVolume k v)
        { w with
          state := { w.state with
            totalAatVolume := w.state.totalAatVolume - nft.aatVolume + v.toNat }
          aatNfts := modifyFirst nftHolder k (fun n => { n with aatVolume := v.toNat }) w.aatNfts
          pool := w.updateInvestor k (revaluedRecord v.toNat) } {}

end Floor
