import FloorProgram.Lemmas.CloseRound

/-!
# The invariant

What holds of every reachable world.  It comes in five parts, one for each thing the program keeps
in more than one place.

* `Viable` — the live parameters passed the checks of `initialize` and the setters.
* `LobbyInv` — the global USDC counters are sums over the pool, and an idle contract has no round.
* `RoundInv` — what a running round promises: its size, how far it has got, and that every lock is
  a fair part of the cap.  With it, every lock is worth some wALN (`RoundInv.baseWaln_pos`,
  `RoundInv.closeShare_pos`).
* `AatInv` — the three copies of an AAT volume agree, and they sum to at most 100%.
* `WalnInv` — the wALN in the vault is accounted for, and the accounts of settled rounds are sorted,
  counted and never reused.

`Inv` holds between the phases of a transaction.  A round that has just been filled is settled
before the transaction ends, so at its boundaries there is also room left in the round
(`RoundOpen`).
-/

namespace Floor

open Checked Loop Keyed Search ProRata

/-- The decimals of the wALN mint. -/
def World.decimals (env : Env) (w : World) : ℕ := (env.mint w.state.walnMint).decimals.toNat

/-- The live parameters of a mint with `d` decimals. -/
structure Viable (d : ℕ) (s : ProgramState) : Prop where
  decimals : s.walnDecimals = d
  scale : 10 ^ d < 2 ^ 128
  price_pos : 0 < s.floorPriceUsdc
  price_lt : s.floorPriceUsdc < 2 ^ 64
  size_min : MIN_SELL_WALN ≤ s.roundSizeWaln
  size_lt : s.roundSizeWaln < 2 ^ 64
  cap_pos : 0 < s.roundSizeWaln * s.floorPriceUsdc / 10 ^ d
  lock_nonneg : 0 ≤ s.lockPeriodSeconds
  lock_lt : s.lockPeriodSeconds < 2 ^ 63

/-- The USDC counters. -/
structure LobbyInv (s : ProgramState) (investors : List InvestorRecord) : Prop where
  lobby : s.totalUsdcInLobby = poolUsdc investors
  lobby_lt : s.totalUsdcInLobby < 2 ^ 64
  locked : s.totalUsdcLockedForRound = lockedUsdc investors
  idle : s.roundStarted = false →
    lockedUsdc investors = 0 ∧ s.currentRoundWaln = 0 ∧ s.currentRoundUsdcSpent = 0

/-- The USDC a full round costs, from its snapshot. -/
def ProgramState.roundCap (d : ℕ) (s : ProgramState) : ℕ :=
  s.currentRoundSizeWaln * s.currentRoundFloorPrice / 10 ^ d

/-- A running round. -/
structure RoundInv (d : ℕ) (s : ProgramState) (investors : List InvestorRecord) : Prop where
  size_min : MIN_SELL_WALN ≤ s.currentRoundSizeWaln
  size_lt : s.currentRoundSizeWaln < 2 ^ 64
  price_pos : 0 < s.currentRoundFloorPrice
  price_lt : s.currentRoundFloorPrice < 2 ^ 64
  lock_nonneg : 0 ≤ s.currentRoundLockPeriod
  lock_lt : s.currentRoundLockPeriod < 2 ^ 63
  waln_le : s.currentRoundWaln ≤ s.currentRoundSizeWaln
  waln_min : s.currentRoundWaln = 0 ∨ MIN_SELL_WALN ≤ s.currentRoundWaln
  spent_le : s.currentRoundUsdcSpent * 10 ^ d ≤ s.currentRoundWaln * s.currentRoundFloorPrice
  spent_pos : 0 < s.currentRoundWaln → 0 < s.currentRoundUsdcSpent
  locked_pos : 0 < lockedUsdc investors
  locked_le : lockedUsdc investors ≤ s.roundCap d
  fair : ∀ r ∈ investors, 0 < r.usdcLockedCurrentRound →
    s.roundCap d < (r.usdcLockedCurrentRound + 1) * MAX_TOTAL_AAT_VOLUME

/-- There is wALN left to sell into the round, and it is worth some USDC. -/
def RoundOpen (d : ℕ) (s : ProgramState) : Prop :=
  s.currentRoundWaln < s.currentRoundSizeWaln ∧
    0 < (s.currentRoundSizeWaln - s.currentRoundWaln) * s.currentRoundFloorPrice / 10 ^ d

/-- The copies of the AAT volumes. -/
structure AatInv (totalAatVolume : ℕ) (aatNfts : List AatNft)
    (investors : List InvestorRecord) : Prop where
  holders : NodupKeys nftHolder aatNfts
  total : totalAatVolume = (aatNfts.map AatNft.aatVolume).sum
  total_le : totalAatVolume ≤ MAX_TOTAL_AAT_VOLUME
  matched : ∀ r ∈ investors, ∃ n ∈ aatNfts, n.investor = r.investor ∧ n.aatVolume = r.aatVolume

/-- The unclaimed entries of an account. -/
def unclaimed (entries : List InvestorAlloc) : ℕ :=
  (entries.filter fun a => 0 < a.walnAmount).length

/-- The account of a settled round. -/
structure LockedInv (a : RoundLockedWaln) : Prop where
  sorted : StrictSorted InvestorAlloc.investor a.investors
  remaining : a.remainingToClaim = unclaimed a.investors
  remaining_pos : 0 < a.remainingToClaim

/-- The wALN all accounts of settled rounds hold. -/
def lockedWaln (accounts : List (Account RoundLockedWaln)) : ℕ :=
  (accounts.map fun a => entriesWaln a.data.investors).sum

/-- The wALN. -/
structure WalnInv (w : World) : Prop where
  indices : NodupKeys lockedIndex w.roundLockedWaln
  index_lt : ∀ a ∈ w.roundLockedWaln, a.data.roundIndex < w.state.roundCount
  accounts : ∀ a ∈ w.roundLockedWaln, LockedInv a.data
  records_lt : ∀ a ∈ w.roundRecords, a.data.roundIndex < w.state.roundCount
  vault : w.walnVault
    = lockedWaln w.roundLockedWaln + w.state.currentRoundWaln + w.state.walnDustCarryover
  vault_lt : w.walnVault < 2 ^ 64

/-- **The invariant** of the program. -/
structure Inv (env : Env) (w : World) : Prop where
  keys : NodupKeys byInvestor w.pool.investors
  count_le : w.pool.investors.length ≤ MAX_INVESTORS
  viable : Viable (w.decimals env) w.state
  lobby : LobbyInv w.state w.pool.investors
  round : w.state.roundStarted = true → RoundInv (w.decimals env) w.state w.pool.investors
  aat : AatInv w.state.totalAatVolume w.aatNfts w.pool.investors
  waln : WalnInv w

/-! ## What the parts imply -/

lemma AatInv.poolVolume_le {total : ℕ} {nfts : List AatNft} {investors : List InvestorRecord}
    (h : AatInv total nfts investors) (hkeys : NodupKeys byInvestor investors) :
    poolVolume investors ≤ MAX_TOTAL_AAT_VOLUME := by
  have hle : poolVolume investors ≤ (nfts.map AatNft.aatVolume).sum :=
    sum_le_of_matched hkeys h.matched
  have := h.total
  have := h.total_le
  omega

section Round

variable {d : ℕ} {s : ProgramState} {investors : List InvestorRecord} {r : InvestorRecord}

lemma scale_pos (d : ℕ) : 0 < 10 ^ d := Nat.pow_pos (by decide)

lemma RoundInv.roundCap_mul_le : s.roundCap d * 10 ^ d
    ≤ s.currentRoundSizeWaln * s.currentRoundFloorPrice := Nat.div_mul_le_self _ _

lemma RoundInv.lock_le (h : RoundInv d s investors) (hr : r ∈ investors) :
    r.usdcLockedCurrentRound ≤ s.roundCap d := (lock_le_lockedUsdc hr).trans h.locked_le

/-- A lock, scaled up, is within what the round costs. -/
lemma RoundInv.lock_mul_lt (h : RoundInv d s investors) (hr : r ∈ investors) :
    r.usdcLockedCurrentRound * 10 ^ d < 2 ^ 128 :=
  calc r.usdcLockedCurrentRound * 10 ^ d
      ≤ s.roundCap d * 10 ^ d := Nat.mul_le_mul_right _ (h.lock_le hr)
    _ ≤ s.currentRoundSizeWaln * s.currentRoundFloorPrice := RoundInv.roundCap_mul_le
    _ < 2 ^ 64 * 2 ^ 64 := Nat.mul_lt_mul'' h.size_lt h.price_lt
    _ = 2 ^ 128 := by norm_num

/-- The full round is worth less than one lock more than a millionth of it. -/
lemma RoundInv.size_mul_lt (h : RoundInv d s investors) (hr : r ∈ investors)
    (hpos : 0 < r.usdcLockedCurrentRound) :
    s.currentRoundSizeWaln * s.currentRoundFloorPrice
      < 2 * MAX_TOTAL_AAT_VOLUME * (r.usdcLockedCurrentRound * 10 ^ d) := by
  have hfair := h.fair r hr hpos
  have hcap : s.currentRoundSizeWaln * s.currentRoundFloorPrice < (s.roundCap d + 1) * 10 ^ d := by
    have := Nat.lt_mul_div_succ (s.currentRoundSizeWaln * s.currentRoundFloorPrice) (scale_pos d)
    rwa [Nat.mul_comm (10 ^ d)] at this
  calc s.currentRoundSizeWaln * s.currentRoundFloorPrice < (s.roundCap d + 1) * 10 ^ d := hcap
    _ ≤ (2 * MAX_TOTAL_AAT_VOLUME * r.usdcLockedCurrentRound) * 10 ^ d := by
      refine Nat.mul_le_mul_right _ ?_
      have : (r.usdcLockedCurrentRound + 1) * MAX_TOTAL_AAT_VOLUME
          ≤ 2 * r.usdcLockedCurrentRound * MAX_TOTAL_AAT_VOLUME :=
        Nat.mul_le_mul_right _ (by omega)
      have e : 2 * r.usdcLockedCurrentRound * MAX_TOTAL_AAT_VOLUME
          = 2 * MAX_TOTAL_AAT_VOLUME * r.usdcLockedCurrentRound := by ring
      omega
    _ = 2 * MAX_TOTAL_AAT_VOLUME * (r.usdcLockedCurrentRound * 10 ^ d) := by ring

/-- **Every lock buys some wALN**, at the round's price. -/
lemma RoundInv.baseWaln_pos (h : RoundInv d s investors) (hr : r ∈ investors)
    (hpos : 0 < r.usdcLockedCurrentRound) :
    0 < baseWaln (10 ^ d) s.currentRoundFloorPrice r := by
  have hlt := h.size_mul_lt hr hpos
  have hmin := Nat.mul_le_mul_right s.currentRoundFloorPrice h.size_min
  refine Nat.div_pos ?_ h.price_pos
  simp only [MIN_SELL_WALN, MAX_TOTAL_AAT_VOLUME] at hlt hmin
  omega

/-- What the locks buy together fits into the round. -/
lemma RoundInv.sum_baseWaln_le (h : RoundInv d s investors) :
    (investors.map (baseWaln (10 ^ d) s.currentRoundFloorPrice)).sum ≤ s.currentRoundSizeWaln := by
  have hsum := sum_div_mul_le investors (fun r => r.usdcLockedCurrentRound * 10 ^ d)
    s.currentRoundFloorPrice
  rw [List.sum_map_mul_right] at hsum
  refine Nat.le_of_mul_le_mul_right (hsum.trans ?_) h.price_pos
  exact (Nat.mul_le_mul_right _ h.locked_le).trans RoundInv.roundCap_mul_le

/-- **Every lock gets some wALN of a forced close**, once anything has been sold. -/
lemma RoundInv.closeShare_pos (h : RoundInv d s investors) (hw : 0 < s.currentRoundWaln)
    (hr : r ∈ investors) (hpos : 0 < r.usdcLockedCurrentRound) :
    0 < share s.currentRoundWaln
      (investors.map (baseWaln (10 ^ d) s.currentRoundFloorPrice)).sum
      (baseWaln (10 ^ d) s.currentRoundFloorPrice r) := by
  set full := baseWaln (10 ^ d) s.currentRoundFloorPrice r with hfull
  set total := (investors.map (baseWaln (10 ^ d) s.currentRoundFloorPrice)).sum with htotal
  have hfullpos : 0 < full := h.baseWaln_pos hr hpos
  have hle : full ≤ total :=
    List.single_le_sum (fun _ _ => Nat.zero_le _) _ (List.mem_map_of_mem hr)
  -- the size is at most four million times what this lock buys
  have hsize : s.currentRoundSizeWaln ≤ 4 * MAX_TOTAL_AAT_VOLUME * full := by
    have hlt := h.size_mul_lt hr hpos
    have hdiv : r.usdcLockedCurrentRound * 10 ^ d < (full + 1) * s.currentRoundFloorPrice := by
      have := Nat.lt_mul_div_succ (r.usdcLockedCurrentRound * 10 ^ d) h.price_pos
      rwa [Nat.mul_comm s.currentRoundFloorPrice] at this
    refine Nat.le_of_mul_le_mul_right (c := s.currentRoundFloorPrice) ?_ h.price_pos
    calc s.currentRoundSizeWaln * s.currentRoundFloorPrice
        ≤ 2 * MAX_TOTAL_AAT_VOLUME * ((full + 1) * s.currentRoundFloorPrice) :=
          hlt.le.trans (Nat.mul_le_mul_left _ hdiv.le)
      _ ≤ 2 * MAX_TOTAL_AAT_VOLUME * (2 * full * s.currentRoundFloorPrice) :=
          Nat.mul_le_mul_left _ (Nat.mul_le_mul_right _ (by omega))
      _ = 4 * MAX_TOTAL_AAT_VOLUME * full * s.currentRoundFloorPrice := by ring
  have hwaln : MIN_SELL_WALN ≤ s.currentRoundWaln := h.waln_min.resolve_left hw.ne'
  refine Nat.div_pos ?_ (hfullpos.trans_le hle)
  calc total ≤ s.currentRoundSizeWaln := h.sum_baseWaln_le
    _ ≤ 4 * MAX_TOTAL_AAT_VOLUME * full := hsize
    _ ≤ s.currentRoundWaln * full := by
      refine Nat.mul_le_mul_right _ (le_trans ?_ hwaln)
      decide

lemma RoundInv.participants_ne_nil (h : RoundInv d s investors) : participants investors ≠ [] := by
  intro hnil
  have : ∀ r ∈ investors, r.usdcLockedCurrentRound = 0 := by
    intro r hr
    by_contra hne
    have : r ∈ participants investors := mem_participants.mpr ⟨hr, Nat.pos_of_ne_zero hne⟩
    simp [hnil] at this
  have := lockedUsdc_eq_zero.mpr this
  have := h.locked_pos
  omega

end Round

end Floor
