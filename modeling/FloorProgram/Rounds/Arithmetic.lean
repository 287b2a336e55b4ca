import FloorProgram.Accounting.Conservation
import FloorProgram.Accounting.Lobby
import FloorProgram.Rounds.Participants

/-!
# The arithmetic of a settlement

The last sell of a round must not fail for reasons that its seller has nothing to do with.  The
settlement multiplies locks by the scale, narrows quotients to `u64` and adds up totals, all with
checks.  `Inv.settlementFits` says that none of the checks on the round's own numbers fires: the
locks are bounded by the cap, the cap by the size and the price, and the wALN by what is in the
vault.

What is left are counters over the lifetime of an investor or of the program, the unlock time and a
value that is only logged (`CounterOverflows`).  The start of the next round has no overflow at all:
it succeeds, or there is nobody to start it with.
-/

namespace Floor

open Checked Loop Keyed Search

/-! ## The operations -/

/-- One iteration of the settlement loop: the operations that are not on a counter of the record. -/
structure ChargeFits (s p : ℕ) (t : SettleTotals) (r : InvestorRecord) : Prop where
  count : checkedAdd 64 t.participantCountForDust 1 = some (t.participantCountForDust + 1)
  volume : checkedAdd 64 t.totalAatVolumeAtTrigger r.aatVolume
    = some (t.totalAatVolumeAtTrigger + r.aatVolume)
  waln : mulDivU64 r.usdcLockedCurrentRound s p = .ok (baseWaln s p r)
  spent : checkedAdd 64 t.totalUsdcSpent r.usdcLockedCurrentRound
    = some (t.totalUsdcSpent + r.usdcLockedCurrentRound)
  purchased : checkedAdd 64 t.totalWalnPurchased (baseWaln s p r)
    = some (t.totalWalnPurchased + baseWaln s p r)

/-- The award of the dust: there is a winner, and its amount and the total have room. -/
def AwardFits (now : ℤ) (dustPool : ℕ) (t : SettleTotals) : Prop :=
  0 < t.participantCountForDust → ∃ winner,
    t.participantData[(now % 2 ^ 64).toNat % t.participantCountForDust]? = some winner ∧
    checkedAdd 64 winner.walnAmount dustPool = some (winner.walnAmount + dustPool) ∧
    checkedAdd 64 t.totalWalnPurchased dustPool = some (t.totalWalnPurchased + dustPool)

/-- **The settlement fits**: in whatever state the code reaches one of these operations, it
succeeds. -/
structure SettlementFits (s p : ℕ) (now : ℤ) (w : World) : Prop where
  charge : ∀ pre r post pre' t, w.pool.investors = pre ++ r :: post →
    r.usdcLockedCurrentRound ≠ 0 →
    forMut (settleRecord s p) SettleTotals.zero pre = (pre', .ok t) → ChargeFits s p t r
  award : ∀ charged t,
    forMut (settleRecord s p) SettleTotals.zero w.pool.investors = (charged, .ok t) →
    AwardFits now w.state.walnDustCarryover t
  lobby : ∀ investors t,
    settlePool s p now w.state.walnDustCarryover w.pool.investors = .ok (investors, t) →
    checkedSub w.state.totalUsdcInLobby t.totalUsdcSpent
      = some (w.state.totalUsdcInLobby - t.totalUsdcSpent)
  carryover : ∀ investors t,
    settlePool s p now w.state.walnDustCarryover w.pool.investors = .ok (investors, t) →
    ∃ dust, dustCarryover w.state.currentRoundWaln w.state.walnDustCarryover t.totalWalnPurchased
      = .ok dust

/-- **The overflows that are left.** -/
inductive CounterOverflows (s p : ℕ) (now : ℤ) (w : World) : Prop
  | unlock (hover : checkedAddI64 now w.state.currentRoundLockPeriod = none)
  | usdcCommitted {r : InvestorRecord} (hr : r ∈ w.pool.investors)
      (hover : checkedAdd 64 r.usdcCommitted r.usdcLockedCurrentRound = none)
  | walnPurchasedTotal {r : InvestorRecord} (hr : r ∈ w.pool.investors)
      (hover : checkedAdd 64 r.walnPurchasedTotal (baseWaln s p r) = none)
  | walnPurchasedTotalOfWinner {charged : List InvestorRecord} {t : SettleTotals}
      {winner : InvestorAlloc} {r : InvestorRecord}
      (hcharged : forMut (settleRecord s p) SettleTotals.zero w.pool.investors = (charged, .ok t))
      (hwinner : t.participantData[(now % 2 ^ 64).toNat % t.participantCountForDust]? = some winner)
      (hr : lookup byInvestor winner.investor charged = some r)
      (hover : checkedAdd 64 r.walnPurchasedTotal w.state.walnDustCarryover = none)
  | roundCount (hover : checkedAdd 64 w.state.roundCount 1 = none)
  | investorAllocated {investors : List InvestorRecord} {t : SettleTotals} {a : InvestorAlloc}
      (hpool : settlePool s p now w.state.walnDustCarryover w.pool.investors = .ok (investors, t))
      (ha : a ∈ claimableEntries t.participantData)
      (hover : ∀ usdcSpent, mulDivU64 a.walnAmount p s ≠ .ok usdcSpent)

/-! ## They fit in every reachable world -/

section Fits

variable {env : Env} {w : World}

lemma participantVolume_le_poolVolume (l : List InvestorRecord) :
    participantVolume l ≤ poolVolume l :=
  ((List.filter_sublist).map _).sum_le_sum fun _ _ => Nat.zero_le _

lemma Inv.chargeFits (h : Inv env w) (hstarted : w.state.roundStarted = true)
    {pre post pre' : List InvestorRecord} {r : InvestorRecord} {t : SettleTotals}
    (hsplit : w.pool.investors = pre ++ r :: post)
    (hloop : forMut (settleRecord (10 ^ w.decimals env) w.state.currentRoundFloorPrice)
      SettleTotals.zero pre = (pre', .ok t)) :
    ChargeFits (10 ^ w.decimals env) w.state.currentRoundFloorPrice t r := by
  have hround := h.round hstarted
  have hr : r ∈ w.pool.investors := by rw [hsplit]; simp
  obtain ⟨-, hspent, hwaln, hcount, -⟩ := forMut_settleRecord hloop
  have hvolume := forMut_volume (fun _ _ _ _ => settleRecord_volume) hloop
  simp only [SettleTotals.zero, Nat.zero_add] at hspent hwaln hcount hvolume
  -- What has been added up over `pre`, and what is added for `r`, are parts of totals that fit.
  have hlen : (participants pre).length + 1 ≤ w.pool.investors.length := by
    have := List.length_filter_le
      (fun r : InvestorRecord => decide (0 < r.usdcLockedCurrentRound)) pre
    rw [hsplit, participants, List.length_append, List.length_cons]
    omega
  have hvol : participantVolume pre + r.aatVolume ≤ poolVolume w.pool.investors := by
    have := participantVolume_le_poolVolume pre
    rw [hsplit]
    simp only [poolVolume, List.map_append, List.map_cons, List.sum_append, List.sum_cons] at this ⊢
    omega
  have husdc : lockedUsdc pre + r.usdcLockedCurrentRound ≤ lockedUsdc w.pool.investors := by
    rw [hsplit]
    simp only [lockedUsdc, List.map_append, List.map_cons, List.sum_append, List.sum_cons]
    omega
  have hbase : (pre.map (baseWaln (10 ^ w.decimals env) w.state.currentRoundFloorPrice)).sum
      + baseWaln (10 ^ w.decimals env) w.state.currentRoundFloorPrice r
        ≤ w.state.currentRoundSizeWaln := by
    have := hround.sum_baseWaln_le
    rw [hsplit] at this
    simp only [List.map_append, List.map_cons, List.sum_append, List.sum_cons] at this
    omega
  have hmax := h.count_le
  have haat := h.aat.poolVolume_le h.keys
  have hlobby := h.lockedUsdc_le
  have hlobby_lt := h.lobby.lobby_lt
  have hsize := hround.size_lt
  have hmaxInvestors : MAX_INVESTORS < 2 ^ 64 - 1 := by decide
  have hmaxVolume : MAX_TOTAL_AAT_VOLUME < 2 ^ 64 := by decide
  refine ⟨checkedAdd_of_lt ?_, checkedAdd_of_lt ?_,
    mulDivU64_eq_ok.mpr ⟨hround.lock_mul_lt hr, ?_, ?_, rfl⟩, checkedAdd_of_lt ?_,
    checkedAdd_of_lt ?_⟩
  · omega
  · omega
  · exact hround.price_pos.ne'
  · omega
  · omega
  · omega

/-- The winner's amount and the dust are wALN in the vault. -/
lemma Inv.awardFits (h : Inv env w) (hstarted : w.state.roundStarted = true)
    (hfull : w.state.currentRoundSizeWaln ≤ w.state.currentRoundWaln) (now : ℤ)
    {charged : List InvestorRecord} {t : SettleTotals}
    (hloop : forMut (settleRecord (10 ^ w.decimals env) w.state.currentRoundFloorPrice)
      SettleTotals.zero w.pool.investors = (charged, .ok t)) :
    AwardFits now w.state.walnDustCarryover t := by
  intro hpos
  obtain ⟨-, -, hwaln, hcount, hdata⟩ := forMut_settleRecord hloop
  simp only [SettleTotals.zero, Nat.zero_add, List.nil_append] at hwaln hcount hdata
  have hbase := (h.round hstarted).sum_baseWaln_le
  have hvault := h.waln.vault
  have hvault_lt := h.waln.vault_lt
  have hidx : (now % 2 ^ 64).toNat % t.participantCountForDust < t.participantData.length := by
    rw [hdata, List.length_map, ← hcount]
    exact Nat.mod_lt _ hpos
  refine ⟨_, List.getElem?_eq_getElem hidx, checkedAdd_of_lt ?_, checkedAdd_of_lt ?_⟩
  · have hle : t.participantData[(now % 2 ^ 64).toNat % t.participantCountForDust].walnAmount
        ≤ entriesWaln t.participantData :=
      List.single_le_sum (fun _ _ => Nat.zero_le _) _ (List.mem_map_of_mem (List.getElem_mem hidx))
    have hentries : entriesWaln t.participantData = t.totalWalnPurchased := by
      rw [hdata, entriesWaln_baseEntry, hwaln]
    omega
  · omega

/-- **The settlement of a full round fits.** -/
theorem Inv.settlementFits (h : Inv env w) (hstarted : w.state.roundStarted = true)
    (hfull : w.state.currentRoundSizeWaln ≤ w.state.currentRoundWaln) (now : ℤ) :
    SettlementFits (10 ^ w.decimals env) w.state.currentRoundFloorPrice now w where
  charge _ _ _ _ _ hsplit _ hloop := h.chargeFits hstarted hsplit hloop
  award _ _ hloop := h.awardFits hstarted hfull now hloop
  lobby _ _ hpool := by
    rw [settlePool_spent h hstarted hpool]
    exact checkedSub_of_le h.lockedUsdc_le
  carryover _ _ hpool := dustCarryover_total h hstarted hfull hpool

end Fits

/-! ## What can overflow then -/

section Overflows

variable {env : Env} {ctx : Context} {w : World} {P : TxError → Prop} {s p : ℕ}

/-- An iteration that fits fails on a counter of the record only. -/
lemma ChargeFits.failsOnly {t : SettleTotals} {r : InvestorRecord}
    (hfits : r.usdcLockedCurrentRound ≠ 0 → ChargeFits s p t r)
    (hcommitted : checkedAdd 64 r.usdcCommitted r.usdcLockedCurrentRound = none →
      P (.Program .ArithmeticOverflow))
    (hpurchased : checkedAdd 64 r.walnPurchasedTotal (baseWaln s p r) = none →
      P (.Program .ArithmeticOverflow)) : FailsOnly P (settleRecord s p t r) := by
  refine failsOnly_ite (fun _ => failsOnly_ok _) fun hlock => ?_
  have h := hfits hlock
  simp only [h.count, h.volume, h.waln, h.spent, h.purchased, arith_some, ok_bind]
  refine failsOnly_bind (failsOnly_okOr hcommitted) fun _ _ => ?_
  exact failsOnly_bind (failsOnly_okOr hpurchased) fun _ _ => failsOnly_pure _

/-- An award that fits fails on the winner's counter only. -/
lemma AwardFits.failsOnly {now : ℤ} {dust : ℕ} {investors : List InvestorRecord} {t : SettleTotals}
    (h : AwardFits now dust t)
    (hwinner : ∀ winner r,
      t.participantData[(now % 2 ^ 64).toNat % t.participantCountForDust]? = some winner →
      lookup byInvestor winner.investor investors = some r →
      checkedAdd 64 r.walnPurchasedTotal dust = none → P (.Program .ArithmeticOverflow)) :
    FailsOnly P (awardDust now dust investors t) := by
  refine failsOnly_ite (fun hpos => ?_) fun _ => failsOnly_ok _
  obtain ⟨winner, hget, hamount, htotal⟩ := h hpos.2
  simp only [hget, hamount, htotal, arith_some, ok_bind]
  refine failsOnly_bind ?_ fun _ _ => failsOnly_pure _
  unfold creditWinner
  split
  · exact failsOnly_ok _
  · rename_i r hr
    exact failsOnly_bind (failsOnly_okOr (hwinner winner r hget hr)) fun _ _ => failsOnly_pure _

lemma SettlementFits.settlePool_failsOnly {now : ℤ} (h : SettlementFits s p now w)
    (hP : CounterOverflows s p now w → P (.Program .ArithmeticOverflow)) :
    FailsOnly P (settlePool s p now w.state.walnDustCarryover w.pool.investors) := by
  refine failsOnly_bind (failsOnly_committed ?_) fun ⟨charged, t⟩ hloop => ?_
  · refine failsOnly_forMut_reached fun pre r post pre' t hsplit hpre => ?_
    have hr : r ∈ w.pool.investors := by rw [hsplit]; simp
    exact ChargeFits.failsOnly (fun hlock => h.charge pre r post pre' t hsplit hlock hpre)
      (fun hover => hP (.usdcCommitted hr hover)) (fun hover => hP (.walnPurchasedTotal hr hover))
  · have hcharged : forMut (settleRecord s p) SettleTotals.zero w.pool.investors
        = (charged, .ok t) := Prod.ext (committed_eq_ok.mp hloop).1 (committed_eq_ok.mp hloop).2
    refine (h.award charged t hcharged).failsOnly fun winner r hget hr hover => ?_
    exact hP (.walnPurchasedTotalOfWinner hcharged hget hr hover)

/-- **A settlement that fits overflows on one of the counters that are left, or not at all.** -/
theorem SettlementFits.failsOnly {d : ℕ} {remaining : List AccountInfo}
    (h : SettlementFits (10 ^ d) p ctx.now w) :
    FailsOnly (fun e => Overflows e → CounterOverflows (10 ^ d) p ctx.now w)
      (settleWorld env ctx d p remaining w) := by
  unfold settleWorld
  split
  · refine failsOnly_bind (failsOnly_okOr fun hover _ => .unlock hover) fun unlock _ => ?_
    refine failsOnly_bind (failsOnly_ensure fun _ he => absurd he (by decide)) fun _ _ => ?_
    refine failsOnly_bind (failsOnly_ensure fun _ he => absurd he (by decide)) fun _ _ => ?_
    refine failsOnly_bind (failsOnly_okOr fun _ he => absurd he (by decide)) fun scale hscale => ?_
    obtain ⟨-, rfl⟩ := walnScale_eq_ok.mp hscale
    refine failsOnly_bind (h.settlePool_failsOnly fun hover _ => hover)
      fun ⟨investors, t⟩ hpool => ?_
    refine failsOnly_bind (failsOnly_writeRoundLockedWaln fun he => absurd he (by decide))
      fun _ _ => ?_
    refine failsOnly_bind (failsOnly_mapM fun a ha => ?_) fun _ _ => ?_
    · refine failsOnly_bind (fun e he _ => ?_) fun _ _ => failsOnly_pure _
      exact .investorAllocated hpool ha fun v hv => by simp [he] at hv
    refine failsOnly_bind (failsOnly_writeRoundRecord fun he => absurd he (by decide))
      fun _ _ => ?_
    refine failsOnly_bind (failsOnly_okOr fun hover _ => .roundCount hover) fun _ _ => ?_
    obtain ⟨dust, hdust⟩ := h.carryover investors t hpool
    simp only [h.lobby investors t hpool, arith_some, ok_bind, hdust]
    exact failsOnly_pure _
  · exact failsOnly_error fun he => absurd he (by decide)

end Overflows

/-! ## The sell that fills the round -/

section Sell

variable {env : Env} {ctx : Context} {w : World} {wm um : Pubkey} {maxWaln usdcOut : ℕ}
  {plan : SalePlan} {remaining : List AccountInfo} {sold : World}

/-- **The next round is started, or there is nobody to start it with.**  After a settlement there
are no locks, and a start that finds nobody leaves the pool as it is. -/
lemma Reachable.autoStart_fits {settled : World} {allocated : List InvestorAllocated}
    {closed : RoundClosed} (h : Reachable env w)
    (hsell : sellIntoRound env ctx wm um maxWaln w = .ok (plan, remaining, usdcOut, sold))
    (hsettle : settleWorld env ctx (env.mint wm).decimals.toNat plan.floorPriceUsdc remaining sold
      = .ok (settled, allocated, closed)) :
    (∀ r ∈ settled.pool.investors, r.usdcLockedCurrentRound = 0) ∧
    ∃ next, settleFullRound env ctx (env.mint wm).decimals.toNat plan.floorPriceUsdc remaining sold
        = .ok (next, allocated, closed) ∧
      ((∃ volume locked, executeRoundStart settled.pool.investors settled.state.roundSizeWaln
          settled.state.floorPriceUsdc (env.mint wm).decimals.toNat
            = (next.pool.investors, .ok (volume, locked))) ∨
        (executeRoundStart settled.pool.investors settled.state.roundSizeWaln
          settled.state.floorPriceUsdc (env.mint wm).decimals.toNat
            = (settled.pool.investors, .error (.Program .NoEligibleInvestors)) ∧
          next.pool = settled.pool)) := by
  obtain ⟨-, hdecimals, hinv, hidle⟩ := h.settled hsell hsettle
  have hzero := lockedUsdc_eq_zero.mp (hinv.lobby.idle hidle).1
  refine ⟨hzero, ?_⟩
  obtain ⟨next, hnext⟩ := autoStart_total hinv
  rw [← hdecimals] at hnext
  refine ⟨next, ?_, ?_⟩
  · simp only [settleFullRound, hsettle, ok_bind, hnext]
    rfl
  have hstart := hinv.executeRoundStart_total
  rw [show settled.unlockedForRound.decimals env = (env.mint wm).decimals.toNat from
    hdecimals.symm] at hstart
  rcases hstart with ⟨investors, volume, locked, hstart⟩ | hstart
  · refine .inl ⟨volume, locked, ?_⟩
    rw [(autoStart_started hstart hnext).1]
    exact hstart
  · refine .inr ⟨hstart, ?_⟩
    have hstart' : executeRoundStart settled.pool.investors settled.state.roundSizeWaln
        settled.state.floorPriceUsdc (env.mint wm).decimals.toNat
          = (settled.pool.investors, .error (.Program .NoEligibleInvestors)) := hstart
    simp only [autoStart, hstart', true_or, if_true, Except.ok.injEq] at hnext
    rw [← hnext]

/-- **Settlement and automatic start never abort a completing sell on arithmetic.**  Let a sell from
a reachable world fill the round.  The scale exists and the settlement fits.  If the sell fails with
an overflow all the same, it is on a lifetime counter, the unlock time or a logged value.  If the
round is settled, the next one is started, or there is nobody to start it with and the pool stays as
it was settled, without locks. -/
theorem completing_sell_never_overflows (h : Reachable env w)
    (hsell : sellIntoRound env ctx wm um maxWaln w = .ok (plan, remaining, usdcOut, sold))
    (hfull : plan.roundSizeWaln ≤ sold.state.currentRoundWaln) :
    let d := (env.mint wm).decimals.toNat
    let p := plan.floorPriceUsdc
    walnScale d = .ok (10 ^ d) ∧
    SettlementFits (10 ^ d) p ctx.now sold ∧
    (sellWaln env ctx wm um maxWaln w = .error (.Program .ArithmeticOverflow) →
      CounterOverflows (10 ^ d) p ctx.now sold) ∧
    ∀ settled allocated closed,
      settleWorld env ctx d p remaining sold = .ok (settled, allocated, closed) →
      (∀ r ∈ settled.pool.investors, r.usdcLockedCurrentRound = 0) ∧
      ∃ next, settleFullRound env ctx d p remaining sold = .ok (next, allocated, closed) ∧
        ((∃ volume locked, executeRoundStart settled.pool.investors settled.state.roundSizeWaln
            settled.state.floorPriceUsdc d = (next.pool.investors, .ok (volume, locked))) ∨
          (executeRoundStart settled.pool.investors settled.state.roundSizeWaln
            settled.state.floorPriceUsdc d
              = (settled.pool.investors, .error (.Program .NoEligibleInvestors)) ∧
            next.pool = settled.pool)) := by
  intro d p
  obtain ⟨hinv, hstarted, hdecimals, hprice, hsize⟩ := h.sold hsell
  have hfits : SettlementFits (10 ^ d) p ctx.now sold := by
    have := hinv.settlementFits hstarted (hsize ▸ hfull) ctx.now
    rwa [← hdecimals, ← hprice] at this
  refine ⟨?_, hfits, fun herror => ?_, fun settled allocated closed hsettle => ?_⟩
  · have hscale := hinv.viable.scale
    rw [← hdecimals] at hscale
    exact walnScale_eq_ok.mpr ⟨hscale, rfl⟩
  · simp only [sellWaln, hsell, ok_bind, hfull, if_true] at herror
    cases hsettle : settleWorld env ctx d p remaining sold with
    | error e =>
        have hfail : settleFullRound env ctx d p remaining sold = .error e := by
          rw [settleFullRound, hsettle, error_bind]
        rw [hfail, error_bind, Except.error.injEq] at herror
        exact hfits.failsOnly e hsettle herror
    | ok x =>
        obtain ⟨settled, allocated, closed⟩ := x
        obtain ⟨-, next, hnext, -⟩ := h.autoStart_fits hsell hsettle
        rw [hnext, ok_bind] at herror
        cases herror
  · exact h.autoStart_fits hsell hsettle

/-- Three deposits of `8`, a round that costs `15`, and `2` of `5` wALN sold.  A sell of the other
`3` settles the round, and nobody has enough left for the next one. -/
theorem completing_sell_never_overflows_lastRound :
    ∃ w plan remaining usdcOut sold settled allocated closed next, Reachable (sampleEnv 9) w ∧
      sellIntoRound (sampleEnv 9) (signedBy 99 1 (roundAccounts 0)) 11 10 3000000000 w
        = .ok (plan, remaining, usdcOut, sold) ∧
      plan.roundSizeWaln ≤ sold.state.currentRoundWaln ∧
      SettlementFits (10 ^ 9) plan.floorPriceUsdc 1 sold ∧
      settleWorld (sampleEnv 9) (signedBy 99 1 (roundAccounts 0)) 9 plan.floorPriceUsdc remaining
        sold = .ok (settled, allocated, closed) ∧
      settleFullRound (sampleEnv 9) (signedBy 99 1 (roundAccounts 0)) 9 plan.floorPriceUsdc
        remaining sold = .ok (next, allocated, closed) ∧
      (settled.pool.investors.map fun r => r.usdcDeposited) = [3, 3, 3] ∧
      next.pool = settled.pool := by
  obtain ⟨w₀, hist, w, hinit, hrun, hw⟩ := exists_sample_history 9 3 5000000000
    (threeInvestors 10 8 ++ [sell 0 2000000000])
    (fun _ _ w =>
      match sellIntoRound (sampleEnv 9) (signedBy 99 1 (roundAccounts 0)) 11 10 3000000000 w with
      | .ok (plan, remaining, _, sold) =>
        decide (plan.roundSizeWaln ≤ sold.state.currentRoundWaln) &&
        match settleWorld (sampleEnv 9) (signedBy 99 1 (roundAccounts 0)) 9 plan.floorPriceUsdc
            remaining sold with
        | .ok (settled, _, _) =>
            decide ((settled.pool.investors.map fun r => r.usdcDeposited) = [3, 3, 3] ∧
              (executeRoundStart settled.pool.investors settled.state.roundSizeWaln
                settled.state.floorPriceUsdc 9).2.isOk = false)
        | .error _ => false
      | .error _ => false)
    (by decide +kernel)
  split at hw
  · rename_i plan remaining usdcOut sold hsell
    rw [Bool.and_eq_true, decide_eq_true_eq] at hw
    obtain ⟨hfull, hw⟩ := hw
    split at hw
    · rename_i settled allocated closed hsettle
      rw [decide_eq_true_eq] at hw
      obtain ⟨-, hfits, -, hauto⟩ :=
        completing_sell_never_overflows (hrun.reachable hinit) hsell hfull
      obtain ⟨-, next, hnext, ⟨volume, locked, hstart⟩ | ⟨-, hpool⟩⟩ := hauto _ _ _ hsettle
      · have hok := hw.2
        rw [show executeRoundStart settled.pool.investors settled.state.roundSizeWaln
          settled.state.floorPriceUsdc 9 = _ from hstart] at hok
        cases hok
      · exact ⟨w, plan, remaining, usdcOut, sold, settled, allocated, closed, next,
          hrun.reachable hinit, hsell, hfull, hfits, hsettle, hnext, hw.1, hpool⟩
    · cases hw
  · cases hw

end Sell

end Floor
