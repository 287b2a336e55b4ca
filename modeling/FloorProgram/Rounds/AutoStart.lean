import FloorProgram.Core.Attempts
import FloorProgram.Settling

/-!
# The automatic start of the next round

A sell that fills a round starts the next one at once, if the pool can fund it.  If the program left
that to the next sell, which would start a round anyway, nobody who sells, claims or only
administers could tell the difference.

* `Trading` — the part of a world that the start of a round reads and writes.
* `exec_withTrading` — the instructions that leave that part alone.
* `sellWaln_begun` — a sell finds the round started, or starts it, to the same end.
* `autoStart_unobserved` — for every run of these.
-/

namespace Floor

open Checked Loop Keyed

variable {env : Env} {w w' : World} {ctx : Context}

/-! ## What a start of a round touches -/

/-- The pool, the live parameters, and the round they begin. -/
structure Trading where
  pool : InvestorPool
  floorPriceUsdc : ℕ
  roundSizeWaln : ℕ
  lockPeriodSeconds : ℤ
  currentRoundFloorPrice : ℕ
  currentRoundSizeWaln : ℕ
  currentRoundLockPeriod : ℤ
  currentRoundUsdcSpent : ℕ
  totalUsdcLockedForRound : ℕ
  roundStarted : Bool

/-- This part of a world. -/
def World.trading (w : World) : Trading :=
  { pool := w.pool
    floorPriceUsdc := w.state.floorPriceUsdc
    roundSizeWaln := w.state.roundSizeWaln
    lockPeriodSeconds := w.state.lockPeriodSeconds
    currentRoundFloorPrice := w.state.currentRoundFloorPrice
    currentRoundSizeWaln := w.state.currentRoundSizeWaln
    currentRoundLockPeriod := w.state.currentRoundLockPeriod
    currentRoundUsdcSpent := w.state.currentRoundUsdcSpent
    totalUsdcLockedForRound := w.state.totalUsdcLockedForRound
    roundStarted := w.state.roundStarted }

/-- The world with another such part. -/
def World.withTrading (w : World) (t : Trading) : World :=
  { w with
    pool := t.pool
    state := { w.state with
      floorPriceUsdc := t.floorPriceUsdc
      roundSizeWaln := t.roundSizeWaln
      lockPeriodSeconds := t.lockPeriodSeconds
      currentRoundFloorPrice := t.currentRoundFloorPrice
      currentRoundSizeWaln := t.currentRoundSizeWaln
      currentRoundLockPeriod := t.currentRoundLockPeriod
      currentRoundUsdcSpent := t.currentRoundUsdcSpent
      totalUsdcLockedForRound := t.totalUsdcLockedForRound
      roundStarted := t.roundStarted } }

/-- The outcome of an instruction, with another such part. -/
def tradingOutcome (t : Trading) (p : World × Receipt) : World × Receipt := (p.1.withTrading t, p.2)

@[simp] lemma trading_withTrading (t : Trading) : (w.withTrading t).trading = t := rfl

lemma withTrading_trading (w : World) : w.withTrading w.trading = w := rfl

/-- The instructions that do not touch it. -/
def Instruction.offMarket : Instruction → Bool
  | .SetUsdcWithdrawLock _ | .SetSellPaused _ | .SetFrozen _ | .FundTreasury _
  | .WithdrawTreasury _ | .ClaimWaln _ _ | .MintAatNft _ _ | .TransferAuthority _
  | .AcceptAuthority | .CloseRoundRecord _ => true
  | _ => false

/-- **Off the market.**  These instructions do not notice it either. -/
lemma exec_withTrading {i : Instruction} (hi : i.offMarket = true) (t : Trading) (w : World) :
    exec env ctx i (w.withTrading t) = tradingOutcome t <$> exec env ctx i w := by
  cases i with
  | SetUsdcWithdrawLock =>
      simp only [exec, setUsdcWithdrawLock, adminSet, map_bind, map_pure]
      rfl
  | SetSellPaused =>
      simp only [exec, setSellPaused, adminSet, map_bind, map_pure]
      rfl
  | SetFrozen =>
      simp only [exec, setFrozen, adminSet, map_bind, map_pure]
      rfl
  | TransferAuthority =>
      simp only [exec, transferAuthority, adminSet, map_bind, map_pure]
      rfl
  | FundTreasury =>
      simp only [exec, fundTreasury, map_bind, map_pure]
      rfl
  | WithdrawTreasury =>
      simp only [exec, withdrawTreasury, map_bind, map_pure]
      rfl
  | ClaimWaln =>
      simp only [exec, claimWaln, map_bind, map_pure]
      rfl
  | MintAatNft =>
      simp only [exec, mintAatNft, map_bind, map_pure]
      rfl
  | AcceptAuthority =>
      simp only [exec, acceptAuthority, map_bind, map_pure]
      rfl
  | CloseRoundRecord =>
      simp only [exec, closeRoundRecord, map_bind, map_pure]
      rfl
  | _ => cases hi

/-- What such an instruction leaves as it was. -/
lemma exec_offMarket {i : Instruction} {r : Receipt} (hi : i.offMarket = true)
    (hx : exec env ctx i w = .ok (w', r)) : w'.trading = w.trading := by
  have hsame : exec env ctx i (w.withTrading w.trading)
      = tradingOutcome w.trading <$> exec env ctx i w := exec_withTrading hi w.trading w
  rw [withTrading_trading, hx] at hsame
  have hw' : w' = w'.withTrading w.trading := (Prod.mk.inj (Except.ok.inj hsame)).1
  exact (congrArg World.trading hw').trans (trading_withTrading _)

lemma exec_offMarket_state {i : Instruction} {r : Receipt} (hi : i.offMarket = true)
    (hx : exec env ctx i w = .ok (w', r)) :
    w'.state.walnMint = w.state.walnMint ∧
      w'.state.currentRoundWaln = w.state.currentRoundWaln := by
  cases i with
  | SetUsdcWithdrawLock | SetSellPaused | SetFrozen | TransferAuthority =>
      simp only [exec, setUsdcWithdrawLock, setSellPaused, setFrozen, transferAuthority, adminSet,
        bind_eq_ok, pure_eq_ok, Prod.mk.injEq] at hx
      obtain ⟨_, -, _, -, rfl, -⟩ := hx
      exact ⟨rfl, rfl⟩
  | FundTreasury =>
      simp only [exec, fundTreasury, bind_eq_ok, pure_eq_ok, Prod.mk.injEq] at hx
      obtain ⟨_, -, _, -, _, -, _, -, rfl, -⟩ := hx
      exact ⟨rfl, rfl⟩
  | WithdrawTreasury =>
      simp only [exec, withdrawTreasury, bind_eq_ok, pure_eq_ok, Prod.mk.injEq] at hx
      obtain ⟨_, -, _, -, _, -, _, -, rfl, -⟩ := hx
      exact ⟨rfl, rfl⟩
  | ClaimWaln =>
      simp only [exec, claimWaln, bind_eq_ok, pure_eq_ok, Prod.exists, Prod.mk.injEq] at hx
      obtain ⟨_, -, _, -, _, -, _, -, _, _, -, _, -, _, -, _, _, -, rfl, -⟩ := hx
      exact ⟨rfl, rfl⟩
  | MintAatNft =>
      simp only [exec, mintAatNft, bind_eq_ok, pure_eq_ok, Prod.mk.injEq] at hx
      obtain ⟨_, -, _, -, _, -, _, -, _, -, _, -, _, -, rfl, -⟩ := hx
      exact ⟨rfl, rfl⟩
  | AcceptAuthority =>
      simp only [exec, acceptAuthority, bind_eq_ok, pure_eq_ok, Prod.mk.injEq] at hx
      obtain ⟨_, -, _, -, rfl, -⟩ := hx
      exact ⟨rfl, rfl⟩
  | CloseRoundRecord =>
      simp only [exec, closeRoundRecord, bind_eq_ok, pure_eq_ok, Prod.mk.injEq] at hx
      obtain ⟨_, -, _, -, _, -, _, -, rfl, -⟩ := hx
      exact ⟨rfl, rfl⟩
  | _ => cases hi

/-! ## Sells -/

/-- A round has been settled, and no other has been started. -/
structure Waiting (env : Env) (d : ℕ) (w : World) : Prop where
  decimals : w.decimals env = d
  idle : w.state.roundStarted = false
  empty : w.state.currentRoundWaln = 0
  start : (∃ investors volume locked, executeRoundStart w.pool.investors w.state.roundSizeWaln
      w.state.floorPriceUsdc d = (investors, .ok (volume, locked))) ∨
    executeRoundStart w.pool.investors w.state.roundSizeWaln w.state.floorPriceUsdc d
      = (w.pool.investors, .error (.Program .NoEligibleInvestors))

/-- What the automatic start makes of it. -/
def World.startNext (d : ℕ) (w : World) : Trading :=
  match executeRoundStart w.pool.investors w.state.roundSizeWaln w.state.floorPriceUsdc d with
  | (investors, .ok (_, usdcLocked)) =>
    { pool := { investors := investors }
      floorPriceUsdc := w.state.floorPriceUsdc
      roundSizeWaln := w.state.roundSizeWaln
      lockPeriodSeconds := w.state.lockPeriodSeconds
      currentRoundFloorPrice := w.state.floorPriceUsdc
      currentRoundSizeWaln := w.state.roundSizeWaln
      currentRoundLockPeriod := w.state.lockPeriodSeconds
      currentRoundUsdcSpent := 0
      totalUsdcLockedForRound := usdcLocked
      roundStarted := true }
  | (investors, .error _) =>
    { w.trading with pool := { investors := investors }, totalUsdcLockedForRound := 0 }

variable {d : ℕ}

lemma Waiting.autoStart_eq (h : Waiting env d w) :
    autoStart d w = .ok (w.withTrading (w.startNext d)) := by
  rcases h.start with ⟨investors, volume, locked, hstart⟩ | hstart
  · simp only [autoStart, World.startNext, hstart]
    rfl
  · simp only [autoStart, World.startNext, hstart, true_or, if_true]
    rfl

/-- The plan without the start of the round. -/
def SalePlan.withoutStart (plan : SalePlan) : SalePlan := { plan with needRoundStart := false }

/-- The plan of a sell is the same, but for the start. -/
lemma planSale_startNext {investors : List InvestorRecord} {volume locked : ℕ} (h : Waiting env d w)
    (hstart : executeRoundStart w.pool.investors w.state.roundSizeWaln w.state.floorPriceUsdc d
      = (investors, .ok (volume, locked))) (d' maxWaln : ℕ) (wm um : Pubkey) :
    planSale (w.withTrading (w.startNext d)).state d' wm um maxWaln
      = SalePlan.withoutStart <$> planSale w.state d' wm um maxWaln := by
  simp only [planSale, World.startNext, hstart, World.withTrading, ProgramState.effectiveSize,
    ProgramState.effectivePrice, ProgramState.effectiveWaln, h.idle, h.empty, if_true,
    Bool.false_eq_true, if_false, map_bind, map_pure]
  rfl

/-- **A sell after the start** goes into the round as one that starts the round does. -/
lemma sellIntoRound_startNext (h : Waiting env d w) (wm um : Pubkey) (maxWaln : ℕ) :
    sellIntoRound env ctx wm um maxWaln (w.withTrading (w.startNext d))
      = (fun p => (p.1.withoutStart, p.2)) <$> sellIntoRound env ctx wm um maxWaln w := by
  simp only [sellIntoRound, map_bind, map_pure]
  rcases h.start with ⟨investors, volume, locked, hstart⟩ | hstart
  · rw [planSale_startNext h hstart, bind_map_left]
    refine bind_congr_ok fun plan hplan => ?_
    obtain ⟨rfl, hplanned⟩ := planSale_ok hplan
    have hd : (env.mint w.state.walnMint).decimals.toNat = d := h.decimals
    have hplan_eq := hplanned.plan_eq
    simp only [ProgramState.effectiveSize, ProgramState.effectivePrice, h.idle, Bool.not_false,
      Bool.false_eq_true, if_false] at hplan_eq
    rw [hplan_eq, hd]
    simp only [SalePlan.withoutStart, openRound, Bool.false_eq_true, if_false, if_true, hstart,
      committed_ok, ok_bind, pure_bind]
    simp only [paySeller, ProgramState.opened, Bool.false_eq_true, if_false, if_true,
      World.startNext, hstart, bind_assoc, pure_bind]
    rfl
  · -- nobody can fund a round, so neither sell gets past the start
    have hplan_eq : ∀ d', planSale (w.withTrading (w.startNext d)).state d' wm um maxWaln
        = planSale w.state d' wm um maxWaln := by
      intro d'
      simp only [World.startNext, hstart]
      rfl
    rw [hplan_eq]
    refine bind_congr_ok fun plan hplan => ?_
    obtain ⟨rfl, hplanned⟩ := planSale_ok hplan
    have hd : (env.mint w.state.walnMint).decimals.toNat = d := h.decimals
    have hneed := hplanned.plan_eq
    simp only [ProgramState.effectiveSize, ProgramState.effectivePrice, h.idle, Bool.not_false,
      Bool.false_eq_true, if_false] at hneed
    rw [hneed, hd]
    simp only [openRound, if_true, World.startNext, World.withTrading, hstart, committed,
      error_bind]

lemma sellWaln_startNext (h : Waiting env d w) (wm um : Pubkey) (maxWaln : ℕ) :
    sellWaln env ctx wm um maxWaln (w.withTrading (w.startNext d))
      = sellWaln env ctx wm um maxWaln w := by
  rw [sellWaln, sellWaln, sellIntoRound_startNext h, bind_map_left]
  rfl

/-! ## Runs -/

/-- Sells, and what does not concern the market. -/
def Instruction.sellsOrOffMarket : Instruction → Bool
  | .SellWaln _ _ _ => true
  | i => i.offMarket

/-- The same world, or a world that waits for the next round beside one that has started it. -/
def SameOrStarted (env : Env) (d : ℕ) (w v : World) : Prop :=
  v = w ∨ (Waiting env d w ∧ autoStart d w = .ok v)

lemma Waiting.of_offMarket {i : Instruction} {r : Receipt} (h : Waiting env d w)
    (hi : i.offMarket = true) (hx : exec env ctx i w = .ok (w', r)) : Waiting env d w' := by
  have htrading := exec_offMarket hi hx
  obtain ⟨hmint, hwaln⟩ := exec_offMarket_state hi hx
  have hpool : w'.pool = w.pool := congrArg Trading.pool htrading
  have hprice : w'.state.floorPriceUsdc = w.state.floorPriceUsdc :=
    congrArg Trading.floorPriceUsdc htrading
  have hsize : w'.state.roundSizeWaln = w.state.roundSizeWaln :=
    congrArg Trading.roundSizeWaln htrading
  have hstarted : w'.state.roundStarted = w.state.roundStarted :=
    congrArg Trading.roundStarted htrading
  refine ⟨?_, hstarted.trans h.idle, hwaln.trans h.empty, ?_⟩
  · rw [← h.decimals, World.decimals, hmint]
    rfl
  · rw [hpool, hprice, hsize]
    exact h.start

/-- What the start makes of a world depends on its trading part only. -/
lemma startNext_congr (h : w'.trading = w.trading) : w'.startNext d = w.startNext d := by
  have hpool : w'.pool = w.pool := congrArg Trading.pool h
  have hprice : w'.state.floorPriceUsdc = w.state.floorPriceUsdc :=
    congrArg Trading.floorPriceUsdc h
  have hsize : w'.state.roundSizeWaln = w.state.roundSizeWaln := congrArg Trading.roundSizeWaln h
  have hlock : w'.state.lockPeriodSeconds = w.state.lockPeriodSeconds :=
    congrArg Trading.lockPeriodSeconds h
  simp only [World.startNext, h, hpool, hprice, hsize, hlock]

/-- One instruction. -/
lemma exec_matches {v : World} {i : Instruction} (hi : i.sellsOrOffMarket = true)
    (h : SameOrStarted env d w v) :
    Matches (SameOrStarted env d) (exec env ctx i w) (exec env ctx i v) := by
  rcases h with rfl | ⟨hwait, hv⟩
  · cases hx : exec env ctx i v with
    | error e => exact .inl ⟨e, rfl, rfl⟩
    | ok p => exact .inr ⟨p.1, p.1, p.2, rfl, rfl, .inl rfl⟩
  · rw [hwait.autoStart_eq] at hv
    obtain rfl := Except.ok.inj hv
    cases hoff : i.offMarket with
    | true =>
        rw [exec_withTrading hoff]
        cases hx : exec env ctx i w with
        | error e => exact .inl ⟨e, rfl, rfl⟩
        | ok p =>
            have hwait' := hwait.of_offMarket hoff hx
            refine .inr ⟨p.1, _, p.2, rfl, rfl, .inr ⟨hwait', ?_⟩⟩
            rw [hwait'.autoStart_eq, startNext_congr (exec_offMarket hoff hx)]
    | false =>
        -- a sell: it ends the wait in both worlds
        cases i with
        | SellWaln wm um a =>
            have hsame : exec env ctx (.SellWaln wm um a) (w.withTrading (w.startNext d))
                = exec env ctx (.SellWaln wm um a) w := sellWaln_startNext hwait wm um a.toNat
            rw [hsame]
            cases hx : exec env ctx (.SellWaln wm um a) w with
            | error e => exact .inl ⟨e, rfl, rfl⟩
            | ok p => exact .inr ⟨p.1, p.1, p.2, rfl, rfl, .inl rfl⟩
        | _ => simp_all [Instruction.sellsOrOffMarket]

/-- A settled world waits for the next round. -/
lemma Reachable.waiting {wm um : Pubkey} {maxWaln usdcOut : ℕ} {plan : SalePlan}
    {remaining : List AccountInfo} {sold settled : World} {allocated : List InvestorAllocated}
    {closed : RoundClosed} (h : Reachable env w)
    (hsell : sellIntoRound env ctx wm um maxWaln w = .ok (plan, remaining, usdcOut, sold))
    (hsettle : settleWorld env ctx (env.mint wm).decimals.toNat plan.floorPriceUsdc remaining sold
      = .ok (settled, allocated, closed)) :
    Waiting env (env.mint wm).decimals.toNat settled := by
  obtain ⟨⟨dust, hsettled⟩, hdecimals, hinv, hidle⟩ := Reachable.settled h hsell hsettle
  have hempty : settled.unlockedForRound.state.currentRoundWaln = 0 := by rw [hsettled.state]
  refine ⟨hdecimals.symm, hidle, hempty, ?_⟩
  rw [hdecimals]
  exact hinv.executeRoundStart_total

/-- **The automatic start is not observed.**  Let a sell settle a round, and let any sells, claims
and other instructions off the market follow, by anybody and at any time.  Each of them returns the
same, its error included, whether the sell started the next round or left that to the next sell; and
in the end either the worlds are the same, or the start would still make the one of the other. -/
theorem autoStart_unobserved {wm um : Pubkey} {maxWaln usdcOut : ℕ} {plan : SalePlan}
    {remaining : List AccountInfo} {sold settled : World} {allocated : List InvestorAllocated}
    {closed : RoundClosed} (h : Reachable env w)
    (hsell : sellIntoRound env ctx wm um maxWaln w = .ok (plan, remaining, usdcOut, sold))
    (hsettle : settleWorld env ctx (env.mint wm).decimals.toNat plan.floorPriceUsdc remaining sold
      = .ok (settled, allocated, closed)) :
    ∃ next, settleFullRound env ctx (env.mint wm).decimals.toNat plan.floorPriceUsdc remaining sold
        = .ok (next, allocated, closed) ∧
      ∀ calls : List (Context × Instruction), (∀ c ∈ calls, c.2.sellsOrOffMarket = true) →
        let left := tryAll (fun c => exec env c.1 c.2) calls settled
        let right := tryAll (fun c => exec env c.1 c.2) calls next
        left.1 = right.1 ∧
          (right.2 = left.2 ∨ autoStart (env.mint wm).decimals.toNat left.2 = .ok right.2) := by
  have hwait := Reachable.waiting h hsell hsettle
  have hauto := hwait.autoStart_eq
  have hnext : settleFullRound env ctx (env.mint wm).decimals.toNat plan.floorPriceUsdc remaining
        sold = .ok (settled.withTrading (settled.startNext (env.mint wm).decimals.toNat), allocated,
        closed) := by
    simp only [settleFullRound, hsettle, ok_bind, hauto]
    rfl
  refine ⟨_, hnext, fun calls hcalls => ?_⟩
  have hmatches : ∀ c ∈ calls, ∀ s t, SameOrStarted env (env.mint wm).decimals.toNat s t →
      Matches (SameOrStarted env (env.mint wm).decimals.toNat) (exec env c.1 c.2 s)
        (exec env c.1 c.2 t) := fun c hc s t hR => exec_matches (hcalls c hc) hR
  obtain ⟨hsame, hlast⟩ := tryAll_matches hmatches (.inr ⟨hwait, hauto⟩)
  exact ⟨hsame, hlast.imp id And.right⟩

/-- A claim, a sell into the next round, a sell that is too large to leave nothing over, and the end
of the round after. -/
def laterCalls : List (Context × Instruction) :=
  [(signedBy 21 200 [], .ClaimWaln 11 0), sell 1 2000000000, sell 1 2900000000, sell 1 3000000000]

/-- The settled world has no locks, and the world with the next round started has; but nobody who
claims or sells can tell. -/
theorem autoStart_unobserved_nextRound :
    ∃ w plan remaining usdcOut sold settled allocated closed next, Reachable (sampleEnv 9) w ∧
      sellIntoRound (sampleEnv 9) (signedBy 99 1 (roundAccounts 0)) 11 10 3000000000 w
        = .ok (plan, remaining, usdcOut, sold) ∧
      settleWorld (sampleEnv 9) (signedBy 99 1 (roundAccounts 0)) 9 plan.floorPriceUsdc remaining
        sold = .ok (settled, allocated, closed) ∧
      settleFullRound (sampleEnv 9) (signedBy 99 1 (roundAccounts 0)) 9 plan.floorPriceUsdc
        remaining sold = .ok (next, allocated, closed) ∧
      lockedUsdc settled.pool.investors = 0 ∧
      (tryAll (fun c => exec (sampleEnv 9) c.1 c.2) laterCalls settled).1.map Except.isOk
        = [true, true, false, true] ∧
      (tryAll (fun c => exec (sampleEnv 9) c.1 c.2) laterCalls settled).1
        = (tryAll (fun c => exec (sampleEnv 9) c.1 c.2) laterCalls next).1 := by
  obtain ⟨w₀, hist, w, hinit, hrun, hw⟩ := exists_sample_history 9 3 5000000000
    (threeInvestors 10 20 ++ [sell 0 2000000000])
    (fun _ _ w =>
      isOkAnd (fun p : SalePlan × List AccountInfo × ℕ × World =>
        isOkAnd (fun q : World × List InvestorAllocated × RoundClosed =>
          decide (lockedUsdc q.1.pool.investors = 0 ∧
            (tryAll (fun c => exec (sampleEnv 9) c.1 c.2) laterCalls q.1).1.map Except.isOk
              = [true, true, false, true]))
          (settleWorld (sampleEnv 9) (signedBy 99 1 (roundAccounts 0)) 9 p.1.floorPriceUsdc p.2.1
            p.2.2.2))
        (sellIntoRound (sampleEnv 9) (signedBy 99 1 (roundAccounts 0)) 11 10 3000000000 w))
    (by decide +kernel)
  rw [isOkAnd_eq_true] at hw
  obtain ⟨⟨plan, remaining, usdcOut, sold⟩, hsell, hw⟩ := hw
  rw [isOkAnd_eq_true] at hw
  obtain ⟨⟨settled, allocated, closed⟩, hsettle, hw⟩ := hw
  obtain ⟨hlocked, hoks⟩ := of_decide_eq_true hw
  obtain ⟨next, hnext, hcalls⟩ := autoStart_unobserved (hrun.reachable hinit) hsell hsettle
  exact ⟨w, plan, remaining, usdcOut, sold, settled, allocated, closed, next, hrun.reachable hinit,
    hsell, hsettle, hnext, hlocked, hoks, (hcalls laterCalls (by decide)).1⟩

end Floor
