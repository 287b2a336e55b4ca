import FloorProgram.Core.Checked
import FloorProgram.Core.Loop
import FloorProgram.Core.Keyed
import FloorProgram.Core.Search

/-!
# The on-chain state of the floor contract

The data model of `state.rs` and `errors.rs`, and the part of the chain the program reads and
writes.

Amounts are natural numbers.  A field of type `u64` holds one below `2 ^ 64`; that is a fact about
reachable states, established by the checked operations, and not part of the types.  Timestamps
and lock periods are integers.  The `u8` flags only ever hold `0` and `1` and are `Bool` here.

A wallet, mint or token account is named by a `Pubkey`.  Addresses the program derives from seeds
are constructors of `AccountKey`: derivation is deterministic and collision-free, which is all the
program relies on.
-/

namespace Floor

open Checked

/-- A 32-byte key.  Keys are ordered as their byte strings are, which is the order of the numbers
the strings denote in big-endian notation. -/
abbrev Pubkey := Fin (2 ^ 256)

instance Pubkey.neZero : NeZero (2 ^ 256 : ℕ) := ⟨by decide⟩

/-- The most investors the pool holds. -/
def MAX_INVESTORS : ℕ := 100

/-- The least wALN that may open a round. -/
def MIN_SELL_WALN : ℕ := 1000000000

/-- 100% of the AAT volume. -/
def MAX_TOTAL_AAT_VOLUME : ℕ := 1000000

/-! ## Errors -/

/-- The program's own error codes. -/
inductive FloorError
  | SellPaused
  | ContractFrozen
  | ZeroAmount
  | InsufficientFunds
  | NotYetUnlocked
  | AlreadyClaimed
  | ArithmeticOverflow
  | InvalidInvestor
  | NoEligibleInvestors
  | InvalidAatNft
  | InvalidRemainingAccounts
  | Unauthorized
  | InvalidMintAccountSpace
  | InvalidMint
  | InvalidParameter
  | WalnAllocationLimitExceeded
  | InvestorPoolFull
  | InvalidHookAccountsCount
  | InvalidHookAccounts
  | NotPendingAdmin
  | NoPendingAdmin
  | UsdcLocked
  | SellLeavesUnpayableDust
  | SellAmountTooSmall
  | InvestorNotInactive
  | ZeroAatAllocation
  | FundsLocked
  | NoAatNft
  deriving DecidableEq, Repr

/-- Why a transaction fails: an error code of the program, a panic, a violated account constraint,
or a rejection by the token or the system program it calls. -/
inductive TxError
  | Program (e : FloorError)
  | Panicked
  | Constraint
  | TokenProgram
  | SystemProgram
  deriving DecidableEq, Repr

/-- `require!` with an error code of the program. -/
def ensure (c : Prop) [Decidable c] (e : FloorError) : Except TxError Unit :=
  require c (TxError.Program e)

/-- `.ok_or(FloorError::ArithmeticOverflow)?` after a checked operation. -/
def arith {α : Type} (o : Option α) : Except TxError α :=
  okOr (TxError.Program .ArithmeticOverflow) o

/-- A check succeeds exactly if its condition holds. -/
@[simp] lemma ensure_eq_ok {c : Prop} [Decidable c] {e : FloorError} {u : Unit} :
    ensure c e = .ok u ↔ c := require_eq_ok

/-- Arithmetic succeeds exactly if it does not overflow. -/
@[simp] lemma arith_eq_ok {α : Type} {o : Option α} {a : α} : arith o = .ok a ↔ o = some a :=
  okOr_eq_ok

lemma ensure_of {c : Prop} [Decidable c] (e : FloorError) (h : c) : ensure c e = .ok () :=
  require_of _ h

lemma ensure_of_not {c : Prop} [Decidable c] (e : FloorError) (h : ¬ c) :
    ensure c e = .error (.Program e) := require_of_not _ h

@[simp] lemma arith_some {α : Type} (a : α) : arith (some a) = .ok a := rfl

/-- Arithmetic fails only by an overflow. -/
lemma failsOnly_arith {α : Type} {P : TxError → Prop} {o : Option α}
    (h : P (.Program .ArithmeticOverflow)) : FailsOnly P (arith o) := failsOnly_okOr fun _ => h

/-- A check fails only with its own error. -/
lemma failsOnly_ensure {c : Prop} [Decidable c] {P : TxError → Prop} {e : FloorError}
    (h : ¬ c → P (.Program e)) : FailsOnly P (ensure c e) := failsOnly_require h

/-! ## Accounts -/

/-- One investor's slot in the pool. -/
structure InvestorRecord where
  investor : Pubkey
  usdcDeposited : ℕ
  usdcLockedCurrentRound : ℕ
  usdcCommitted : ℕ
  walnPurchasedTotal : ℕ
  aatVolume : ℕ
  usdcUnlockTs : ℤ
  deriving DecidableEq, Repr

/-- The record `deposit_usdc` starts a new investor with. -/
def InvestorRecord.empty (investor : Pubkey) : InvestorRecord :=
  { investor := investor, usdcDeposited := 0, usdcLockedCurrentRound := 0, usdcCommitted := 0,
    walnPurchasedTotal := 0, aatVolume := 0, usdcUnlockTs := 0 }

/-- The investor pool.  The list is `investors[..count]`; slots from `count` on are never read
before they are written, and are not represented. -/
structure InvestorPool where
  investors : List InvestorRecord

/-- How many slots are in use. -/
def InvestorPool.count (pool : InvestorPool) : ℕ := pool.investors.length

/-- The global state account.  PDA bumps and the vault addresses are fixed by the account
constraints and left out. -/
structure ProgramState where
  admin : Pubkey
  usdcMint : Pubkey
  walnMint : Pubkey
  floorPriceUsdc : ℕ
  roundSizeWaln : ℕ
  currentRoundWaln : ℕ
  totalUsdcInLobby : ℕ
  roundCount : ℕ
  lockPeriodSeconds : ℤ
  usdcWithdrawLockSeconds : ℤ
  currentRoundFloorPrice : ℕ
  currentRoundSizeWaln : ℕ
  currentRoundLockPeriod : ℤ
  currentRoundUsdcSpent : ℕ
  totalAatVolume : ℕ
  walnDustCarryover : ℕ
  totalUsdcLockedForRound : ℕ
  pendingAdmin : Pubkey
  sellPaused : Bool
  roundStarted : Bool
  walnDecimals : ℕ
  frozen : Bool

/-- One entry of a settled round: what an investor may claim. -/
structure InvestorAlloc where
  investor : Pubkey
  walnAmount : ℕ
  deriving DecidableEq, Repr

/-- The wALN of one settled round, until it is claimed. -/
structure RoundLockedWaln where
  roundIndex : ℕ
  bump : ℕ
  unlock : ℤ
  remainingToClaim : ℕ
  investors : List InvestorAlloc
  deriving DecidableEq, Repr

/-- The summary of one settled round. -/
structure RoundRecord where
  roundIndex : ℕ
  triggeredAt : ℤ
  walnPurchased : ℕ
  usdcSpent : ℕ
  totalAatVolumeAtTrigger : ℕ
  participantCount : ℕ
  bump : ℕ
  deriving DecidableEq, Repr

/-- Size in bytes of a `RoundLockedWaln` account with `n` entries, discriminator included. -/
def RoundLockedWaln.space (n : ℕ) : ℕ := 8 + (8 + 1 + 8 + 4 + 4) + n * (32 + 8)

/-- Size in bytes of a `RoundRecord` account: the discriminator and `INIT_SPACE`. -/
def RoundRecord.space : ℕ := 8 + (8 + 8 + 8 + 8 + 8 + 4 + 1)

/-- An account of the program that is paid for in lamports. -/
structure Account (α : Type) where
  lamports : ℕ
  data : α

/-- An investor's AAT NFT: its holder, the `aat_volume` field of its token metadata, and the
balance of the holder's associated token account. -/
structure AatNft where
  investor : Pubkey
  aatVolume : ℕ
  amount : ℕ

/-! ## Events -/

/-- What a settlement logs for an entry. -/
structure InvestorAllocated where
  roundIndex : ℕ
  investor : Pubkey
  walnAmount : ℕ
  usdcSpent : ℕ
  unlock : ℤ
  deriving DecidableEq, Repr

/-- What a settlement logs for the round. -/
structure RoundClosed where
  roundIndex : ℕ
  walnPurchased : ℕ
  usdcSpent : ℕ
  participantCount : ℕ
  unlock : ℤ
  deriving DecidableEq, Repr

/-! ## The chain around the program -/

/-- Addresses of accounts a caller passes in. -/
inductive AccountKey
  | Key (k : Pubkey)
  | ContractState
  | RoundRecord (index : ℕ)
  | RoundLockedWaln (index : ℕ)
  | AatNft (investor : Pubkey)
  | HookConfig (mint program : Pubkey)
  | Attestation (credential schema : Pubkey) (owner : AccountKey) (program : Pubkey)
  | Whitelist (mint : Pubkey) (owner : AccountKey) (program : Pubkey)
  | ExtraAccountMetas (mint program : Pubkey)
  deriving DecidableEq

/-- What the program reads from a transfer hook's configuration account. -/
structure HookConfig where
  credential : Pubkey
  schema : Pubkey
  sasProgram : Pubkey

/-- An account passed in `remaining_accounts`: its address, its lamports, and its contents read as
a hook configuration if it is long enough to be one. -/
structure AccountInfo where
  key : AccountKey
  lamports : ℕ
  hookConfig : Option HookConfig

/-- The immutable properties of a token mint. -/
structure Mint where
  decimals : UInt8
  hookProgramId : Option Pubkey
  transferFeeConfig : Bool

/-- What the program takes from outside and never changes: the mints, the rent schedule, the bump
of a derived address, and the upgrade authority of the program itself. -/
structure Env where
  mint : Pubkey → Mint
  minimumBalance : ℕ → ℕ
  bump : AccountKey → ℕ
  upgradeAuthority : Option Pubkey

/-- The context of one transaction: who signed it, the clock, the balance of the token account the
signer pays from, whether the token and system programs accept what concerns the signer's own
accounts, the accounts passed on top of the fixed ones, and the NFTs of others the signer has an
empty token account of, which anybody can open. -/
structure Context where
  signer : Pubkey
  now : ℤ
  payerBalance : ℕ
  cpiAccepts : Bool
  remainingAccounts : List AccountInfo
  foreignAatAccounts : List AccountKey := []

/-- Everything the program's instructions read and write: its accounts, its two vaults, its
treasury, and the AAT NFTs it minted. -/
structure World where
  state : ProgramState
  pool : InvestorPool
  usdcVault : ℕ
  walnVault : ℕ
  treasury : ℕ
  roundRecords : List (Account RoundRecord)
  roundLockedWaln : List (Account RoundLockedWaln)
  aatNfts : List AatNft

/-- What a transaction moved between the vaults and the outside, and the events it logged. -/
structure Receipt where
  usdcIn : ℕ := 0
  usdcOut : ℕ := 0
  walnIn : ℕ := 0
  walnOut : ℕ := 0
  allocated : List InvestorAllocated := []
  roundClosed : Option RoundClosed := none
  deriving DecidableEq, Repr

/-- The key of a pool slot. -/
abbrev byInvestor (r : InvestorRecord) : Pubkey := r.investor

/-- The key of an account that belongs to a round. -/
abbrev lockedIndex (a : Account RoundLockedWaln) : ℕ := a.data.roundIndex

abbrev recordIndex (a : Account RoundRecord) : ℕ := a.data.roundIndex

abbrev nftHolder (n : AatNft) : Pubkey := n.investor

/-! ## Token transfers

The token program moves exactly the requested amount or fails.
-/

/-- A transfer from the signer's token account into a vault. -/
def transferIn (ctx : Context) (vault amount : ℕ) : Except TxError ℕ := do
  require (amount ≤ ctx.payerBalance ∧ ctx.cpiAccepts = true) .TokenProgram
  okOr .TokenProgram (checkedAdd 64 vault amount)

/-- A transfer out of a vault. -/
def transferOut (ctx : Context) (vault amount : ℕ) : Except TxError ℕ := do
  require (ctx.cpiAccepts = true) .TokenProgram
  okOr .TokenProgram (checkedSub vault amount)

/-- A payment arrives if the payer has it, the token program agrees and the vault can hold it. -/
@[simp] lemma transferIn_eq_ok {ctx : Context} {vault amount vault' : ℕ} :
    transferIn ctx vault amount = .ok vault' ↔
      (amount ≤ ctx.payerBalance ∧ ctx.cpiAccepts = true) ∧ vault + amount < 2 ^ 64 ∧
        vault + amount = vault' := by
  simp only [transferIn, bind_eq_ok, require_eq_ok, okOr_eq_ok, checkedAdd_eq_some, exists_const]

/-- A payment leaves if the vault has it and the token program agrees. -/
@[simp] lemma transferOut_eq_ok {ctx : Context} {vault amount vault' : ℕ} :
    transferOut ctx vault amount = .ok vault' ↔
      ctx.cpiAccepts = true ∧ amount ≤ vault ∧ vault - amount = vault' := by
  simp only [transferOut, bind_eq_ok, require_eq_ok, okOr_eq_ok, checkedSub_eq_some, exists_const]

/-- A payment in fails only in the token program. -/
lemma failsOnly_transferIn {P : TxError → Prop} (h : P .TokenProgram) (ctx : Context)
    (vault amount : ℕ) : FailsOnly P (transferIn ctx vault amount) :=
  failsOnly_bind (failsOnly_require fun _ => h) fun _ _ => failsOnly_okOr fun _ => h

/-- A payment out fails only in the token program. -/
lemma failsOnly_transferOut {P : TxError → Prop} (h : P .TokenProgram) (ctx : Context)
    (vault amount : ℕ) : FailsOnly P (transferOut ctx vault amount) :=
  failsOnly_bind (failsOnly_require fun _ => h) fun _ _ => failsOnly_okOr fun _ => h

end Floor
