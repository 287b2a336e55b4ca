import FloorProgram.Core.Layout
import FloorProgram.Codec.Stored
import FloorProgram.Pool.Account

/-!
# The bytes of the two big accounts

`ProgramState` and `InvestorPool` are not written with Borsh: the program works on the bytes of the
account in place, as a C structure.  The fields come in an order that leaves no gaps, and the pool
spells its padding out.

`admin-cli` reads the accounts by the same cast (`load_zero_copy`); the SDK gets the pool decoded
field by field, keeps the first `count` records of the array, and looks an investor up among them.

`accounts_read_back` — in every run at times of the clock, both read what the program stores.
-/

namespace Floor

open Checked Keyed Bytes

variable {env : Env} {w w' : World}

/-! ## Layouts -/

namespace Layouts

open Layout

/-- A `Pubkey`. -/
def key : Layout Pubkey :=
  (big 32).via Fin.val (Fin.ofNat (2 ^ 256)) fun k => Fin.ext (Nat.mod_eq_of_lt k.isLt)

def u8 : Layout ℕ := num 1

def u32 : Layout ℕ := num 4

def u64 : Layout ℕ := num 8

def i64 : Layout ℤ := int 8

end Layouts

section Structures

open Layout Layouts

/-- The fields of the state account that `initialize` writes and nothing reads or changes. -/
structure StateConstants where
  usdcVault : Pubkey
  walnVault : Pubkey
  bump : ℕ
  usdcVaultBump : ℕ
  walnVaultBump : ℕ
  usdcDecimals : ℕ

/-- These fields fit their types. -/
structure StateConstants.Fits (c : StateConstants) : Prop where
  bump : c.bump < 2 ^ 8
  usdcVaultBump : c.usdcVaultBump < 2 ^ 8
  walnVaultBump : c.walnVaultBump < 2 ^ 8
  usdcDecimals : c.usdcDecimals < 2 ^ 8

/-- `ProgramState`: five keys, fourteen numbers, a key, and eight bytes. -/
def stateLayout : Layout (ProgramState × StateConstants) :=
  ((key.seq (key.seq (key.seq (key.seq key)))).seq
    ((u64.seq (u64.seq (u64.seq (u64.seq (u64.seq (i64.seq (i64.seq (u64.seq (u64.seq (i64.seq
      (u64.seq (u64.seq (u64.seq u64))))))))))))).seq
    (key.seq (flag.seq (flag.seq (u8.seq (u8.seq (u8.seq (u8.seq (u8.seq flag))))))))))
  |>.via
    (fun (s, c) =>
      ((s.admin, s.usdcMint, s.walnMint, c.usdcVault, c.walnVault),
        (s.floorPriceUsdc, s.roundSizeWaln, s.currentRoundWaln, s.totalUsdcInLobby, s.roundCount,
          s.lockPeriodSeconds, s.usdcWithdrawLockSeconds, s.currentRoundFloorPrice,
          s.currentRoundSizeWaln, s.currentRoundLockPeriod, s.currentRoundUsdcSpent,
          s.totalAatVolume, s.walnDustCarryover, s.totalUsdcLockedForRound),
        s.pendingAdmin, s.sellPaused, s.roundStarted, c.bump, c.usdcVaultBump, c.walnVaultBump,
          s.walnDecimals, c.usdcDecimals, s.frozen))
    (fun ((admin, usdcMint, walnMint, usdcVault, walnVault),
        (floorPriceUsdc, roundSizeWaln, currentRoundWaln, totalUsdcInLobby, roundCount,
          lockPeriodSeconds, usdcWithdrawLockSeconds, currentRoundFloorPrice,
          currentRoundSizeWaln, currentRoundLockPeriod, currentRoundUsdcSpent,
          totalAatVolume, walnDustCarryover, totalUsdcLockedForRound),
        pendingAdmin, sellPaused, roundStarted, bump, usdcVaultBump, walnVaultBump,
          walnDecimals, usdcDecimals, frozen) =>
      ({ admin, usdcMint, walnMint, floorPriceUsdc, roundSizeWaln, currentRoundWaln,
         totalUsdcInLobby, roundCount, lockPeriodSeconds, usdcWithdrawLockSeconds,
         currentRoundFloorPrice, currentRoundSizeWaln, currentRoundLockPeriod,
         currentRoundUsdcSpent, totalAatVolume, walnDustCarryover, totalUsdcLockedForRound,
         pendingAdmin, sellPaused, roundStarted, walnDecimals, frozen },
       { usdcVault, walnVault, bump, usdcVaultBump, walnVaultBump, usdcDecimals }))
    fun _ => rfl

/-- `InvestorRecord`. -/
def recordLayout : Layout InvestorRecord :=
  (key.seq (u64.seq (u64.seq (u64.seq (u64.seq (u64.seq i64)))))).via
    (fun x => (x.investor, x.usdcDeposited, x.usdcLockedCurrentRound, x.usdcCommitted,
      x.walnPurchasedTotal, x.aatVolume, x.usdcUnlockTs))
    (fun (investor, usdcDeposited, usdcLockedCurrentRound, usdcCommitted, walnPurchasedTotal,
        aatVolume, usdcUnlockTs) =>
      { investor, usdcDeposited, usdcLockedCurrentRound, usdcCommitted, walnPurchasedTotal,
        aatVolume, usdcUnlockTs })
    fun _ => rfl

/-- `InvestorPool` as it is read, which may have any count. -/
structure RawPool where
  count : ℕ
  bump : ℕ
  investors : Vector InvestorRecord MAX_INVESTORS

/-- `InvestorPool`. -/
def poolLayout : Layout RawPool :=
  (u32.seq (u8.seq ((pad 3).seq (recordLayout.vector MAX_INVESTORS)))).via
    (fun p => (p.count, p.bump, (), p.investors))
    (fun (count, bump, _, investors) => { count, bump, investors })
    fun _ => rfl

/-- The sizes that `initialize` allocates behind the discriminators. -/
example : stateLayout.size = 5 * 32 + 14 * 8 + 32 + 8 ∧ poolLayout.size = 8 + 100 * 80 :=
  ⟨rfl, rfl⟩

end Structures

/-! ## Reading -/

/-- The data of an account in place: the discriminator of its type, and the structure. -/
def accountBytes {α : Type} (disc : Discriminator) (l : Layout α) (a : α) : List UInt8 :=
  disc.toList ++ l.write a

/-- `load_zero_copy` of `admin-cli`: the structure behind the discriminator, if the data is long
enough. -/
def loadZeroCopy {α : Type} (l : Layout α) (data : List UInt8) : Except String α :=
  if data.length < 8 + l.size then
    .error ("Account data too small: " ++ toString data.length ++ " < " ++ toString (8 + l.size))
  else .ok (l.read (slice data 8 l.size))

/-- `program.account.investorPool.fetch`: the account has to exist, and to be of the type. -/
def fetchAccount {α : Type} (disc : Discriminator) (l : Layout α) :
    Option (List UInt8) → Except SdkError α
  | none => .error (.Error "Account does not exist or has no data")
  | some data =>
    if data.take 8 = disc.toList then readBuffer l.read l.size data 8
    else .error (.Error "Invalid account discriminator")

/-- `fetchInvestorPool`: the records in use. -/
def fetchInvestorPool (disc : Discriminator) (info : Option (List UInt8)) :
    Except SdkError (ℕ × ℕ × List InvestorRecord) := do
  let raw ← fetchAccount disc poolLayout info
  return (raw.bump, raw.count, raw.investors.toList.take raw.count)

/-- `fetchInvestorRecord`. -/
def fetchInvestorRecord (disc : Discriminator) (info : Option (List UInt8)) (investor : Pubkey) :
    Except SdkError (Option InvestorRecord) := do
  let (_, _, investors) ← fetchInvestorPool disc info
  return investors.find? fun r => decide (r.investor = investor)

section Read

variable {α : Type} {disc : Discriminator} {l : Layout α} {a : α}

/-- The struct stands behind the discriminator. -/
lemma at_accountBytes : At (accountBytes disc l a) 8 (l.write a) :=
  ⟨disc.toList, [], by simp [accountBytes], by simp⟩

lemma accountBytes_length : (accountBytes disc l a).length = 8 + l.size := by
  rw [accountBytes, List.length_append, Vector.length_toList, l.length_write]

/-- The account begins with the discriminator. -/
lemma accountBytes_take : (accountBytes disc l a).take 8 = disc.toList := by
  rw [accountBytes, List.take_left' (by simp)]

/-- A struct that fits is read back from its account. -/
lemma readBuffer_accountBytes (h : l.Fits a) :
    readBuffer l.read l.size (accountBytes disc l a) 8 = .ok a := by
  rw [readBuffer, if_pos accountBytes_length.ge, Layout.read_slice at_accountBytes h]

/-- `admin-cli` reads what fits. -/
lemma loadZeroCopy_eq (h : l.Fits a) : loadZeroCopy l (accountBytes disc l a) = .ok a := by
  rw [loadZeroCopy, if_neg (by rw [accountBytes_length]; omega),
    Layout.read_slice at_accountBytes h]

/-- The SDK reads what fits. -/
lemma fetchAccount_eq (h : l.Fits a) :
    fetchAccount disc l (some (accountBytes disc l a)) = .ok a := by
  rw [fetchAccount, if_pos accountBytes_take, readBuffer_accountBytes h]

end Read

/-! ## What the program stores -/

lemma I64.layout {z : ℤ} (h : I64 z) : Layouts.i64.Fits z := by
  change -256 ^ 8 ≤ 2 * z ∧ 2 * z < 256 ^ 8
  omega

/-- A record that fits its fields fits its layout. -/
lemma InvestorRecord.Fits.layout {x : InvestorRecord} (h : x.Fits) : recordLayout.Fits x :=
  ⟨x.investor.isLt, h.usdcDeposited, h.usdcLockedCurrentRound, h.usdcCommitted,
    h.walnPurchasedTotal, h.aatVolume, I64.layout h.usdcUnlockTs⟩

/-- The slots that are not in use hold zeros. -/
lemma InvestorRecord.blank_fits : InvestorRecord.blank.Fits :=
  ⟨u64_zero, u64_zero, u64_zero, u64_zero, u64_zero, i64_zero⟩

/-- A state that fits its fields fits its layout. -/
lemma ProgramState.Fits.layout {s : ProgramState} {c : StateConstants} (h : s.Fits) (hc : c.Fits) :
    stateLayout.Fits (s, c) :=
  ⟨⟨s.admin.isLt, s.usdcMint.isLt, s.walnMint.isLt, c.usdcVault.isLt, c.walnVault.isLt⟩,
    ⟨h.floorPriceUsdc, h.roundSizeWaln, h.currentRoundWaln, h.totalUsdcInLobby, h.roundCount,
      I64.layout h.lockPeriodSeconds, I64.layout h.usdcWithdrawLockSeconds,
      h.currentRoundFloorPrice, h.currentRoundSizeWaln, I64.layout h.currentRoundLockPeriod,
      h.currentRoundUsdcSpent, h.totalAatVolume, h.walnDustCarryover, h.totalUsdcLockedForRound⟩,
    s.pendingAdmin.isLt, trivial, trivial, hc.bump, hc.usdcVaultBump, hc.walnVaultBump,
    h.walnDecimals, hc.usdcDecimals, trivial⟩

/-- The pool account as it is stored. -/
def PoolAccount.raw (bump : ℕ) (pool : PoolAccount) : RawPool := ⟨pool.count, bump, pool.items⟩

/-- A pool with zeros behind the count fits its layout. -/
lemma PoolAccount.raw_layout {pool : PoolAccount} {bump : ℕ} (hbump : bump < 2 ^ 8)
    (htidy : pool.Tidy .blank) (hlive : ∀ x ∈ pool.live, x.Fits) :
    poolLayout.Fits (PoolAccount.raw bump pool) := by
  have hcount : pool.count < 2 ^ 32 := pool.count_le.trans_lt (by decide)
  refine ⟨hcount, hbump, trivial, fun x hx => ?_⟩
  rw [PoolAccount.raw, ← Slots.live_append_rest, htidy, List.mem_append, List.mem_replicate] at hx
  rcases hx with hx | ⟨-, rfl⟩
  · exact (hlive x hx).layout
  · exact InvestorRecord.blank_fits.layout

/-- The SDK finds a record in the array by its key. -/
lemma fetchInvestorRecord_eq {disc : Discriminator} {bump : ℕ} {pool : PoolAccount}
    (h : poolLayout.Fits (PoolAccount.raw bump pool)) (k : Pubkey) :
    fetchInvestorRecord disc
        (some (accountBytes disc poolLayout (PoolAccount.raw bump pool))) k
      = .ok (lookup byInvestor k pool.live) := by
  simp only [fetchInvestorRecord, fetchInvestorPool, fetchAccount_eq h, ok_bind]
  rfl

/-- **The accounts are read back.**  In every run at times of the clock everything that is stored
fits its field; the state and the pool are read by `admin-cli` as they are stored, and the SDK shows
for every key the record it has in the pool. -/
theorem accounts_read_back {w₀ : World} {h : List (Transition.Entry World Tx)}
    {c : StateConstants} {b : ℕ} (hw₀ : Initial env w₀) (hh : History env w₀ h w)
    (hnow : AtClockTimes h) (hbump : ∀ k, env.bump k < 2 ^ 8) (hc : c.Fits)
    (hb : b < 2 ^ 8) (stateDisc poolDisc : Discriminator) :
    w.Fits ∧
    loadZeroCopy stateLayout (accountBytes stateDisc stateLayout (w.state, c))
      = .ok (w.state, c) ∧
    ∃ s, SlotReachable env s ∧ s.world = w ∧
      loadZeroCopy poolLayout (accountBytes poolDisc poolLayout (PoolAccount.raw b s.pool))
        = .ok (PoolAccount.raw b s.pool) ∧
      ∀ k, fetchInvestorRecord poolDisc
          (some (accountBytes poolDisc poolLayout (PoolAccount.raw b s.pool))) k
        = .ok (lookup byInvestor k w.pool.investors) := by
  have hfits := History.fits hw₀ hh hbump hnow
  obtain ⟨s, hs, rfl⟩ := (slots_lockstep env).lift (History.reachable hh hw₀)
  have htidy := ((slots_lockstep env).reachable hs).2
  have hraw := PoolAccount.raw_layout hb htidy hfits.records
  exact ⟨hfits, loadZeroCopy_eq (hfits.state.layout hc), s, hs, rfl, loadZeroCopy_eq hraw,
    fetchInvestorRecord_eq hraw⟩

/-- Three investors have deposited twenty units of USDC, and one of them is looked up. -/
theorem accounts_read_back_deposits :
    ∃ (w : World) (c : StateConstants) (s : SlotWorld) (x : InvestorRecord),
      Reachable (sampleEnv 9) w ∧ w.Fits ∧ SlotReachable (sampleEnv 9) s ∧ s.world = w ∧
      loadZeroCopy stateLayout
          (accountBytes (Vector.replicate 8 1) stateLayout (w.state, c)) = .ok (w.state, c) ∧
      fetchInvestorRecord (Vector.replicate 8 2) (some (accountBytes (Vector.replicate 8 2)
        poolLayout (PoolAccount.raw 255 s.pool))) 22 = .ok (some x) ∧
      x.usdcDeposited = 20 := by
  obtain ⟨w₀, h, w, hinit, hh, hw⟩ := exists_sample_history 9 1 6000000000 (threeInvestors 10 20)
    (fun _ h w => h.all (fun e => decide (I64 e.label.ctx.now)) &&
      (lookup byInvestor 22 w.pool.investors).any fun x => x.usdcDeposited = 20)
    (by decide +kernel)
  simp only [Bool.and_eq_true, List.all_eq_true, decide_eq_true_eq, Option.any_eq_true] at hw
  obtain ⟨hnow, x, hx, hdeposited⟩ := hw
  obtain ⟨hfits, hstate, s, hs, rfl, -, hfetch⟩ :=
    accounts_read_back (c := ⟨12, 13, 255, 254, 253, 6⟩) (b := 255) hinit hh hnow
      (fun _ => show (255 : ℕ) < 2 ^ 8 by decide) ⟨by decide, by decide, by decide, by decide⟩
      (by decide)
      (Vector.replicate 8 1) (Vector.replicate 8 2)
  exact ⟨s.world, _, s, x, hh.reachable hinit, hfits, hs, rfl, hstate,
    (hfetch 22).trans (congrArg Except.ok hx), hdeposited⟩

end Floor
