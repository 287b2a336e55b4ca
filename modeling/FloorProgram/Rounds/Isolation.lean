import FloorProgram.Settling

/-!
# A running round does not see the live parameters

The price, the round size and the lock period can be changed at any time; a round runs under the
snapshot taken when it was begun.  Two worlds that differ only in the live parameters
(`World.withLive`) therefore go on to differ only in them, as long as the round runs: every
instruction but the two setters whose check involves the other parameter succeeds in both or in
neither, and moves the same tokens.

A round that is closed by the admin leaves it at that.  The sell that fills a round begins the next
one, and does so under the live parameters: after it the two worlds come from worlds that agree up
to the live parameters, by one attempt each to begin a round (`NextRound`).
-/

namespace Floor

open Checked Loop Keyed Search

variable {env : Env} {w w' v : World} {ctx : Context}

/-- The parameters the admin sets. -/
structure Live where
  floorPriceUsdc : ℕ
  roundSizeWaln : ℕ
  lockPeriodSeconds : ℤ

/-- The world with other live parameters. -/
def World.withLive (w : World) (live : Live) : World :=
  { w with state := { w.state with
      floorPriceUsdc := live.floorPriceUsdc
      roundSizeWaln := live.roundSizeWaln
      lockPeriodSeconds := live.lockPeriodSeconds } }

/-- The live parameters of a world. -/
def World.live (w : World) : Live :=
  ⟨w.state.floorPriceUsdc, w.state.roundSizeWaln, w.state.lockPeriodSeconds⟩

/-- The last parameters that are put in stay. -/
@[simp] lemma World.withLive_withLive (w : World) (l l' : Live) :
    (w.withLive l).withLive l' = w.withLive l' := rfl

/-- The outcome of an instruction, with other live parameters. -/
def liveOutcome (live : Live) (p : World × Receipt) : World × Receipt := (p.1.withLive live, p.2)

/-! ## One instruction -/

section Instructions

variable (w) (live : Live)

/-- A deposit reads none of the three parameters. -/
lemma depositUsdc_withLive (ctx : Context) (m : Pubkey) (n : AccountKey) (a : ℕ) :
    depositUsdc ctx m n a (w.withLive live) = liveOutcome live <$> depositUsdc ctx m n a w := by
  simp only [depositUsdc, map_bind, map_pure]
  rfl

/-- A withdrawal reads none of them. -/
lemma withdrawUsdc_withLive (ctx : Context) (m : Pubkey) (a : ℕ) :
    withdrawUsdc ctx m a (w.withLive live) = liveOutcome live <$> withdrawUsdc ctx m a w := by
  simp only [withdrawUsdc, map_bind, map_pure]
  rfl

/-- A claim reads none of them. -/
lemma claimWaln_withLive (ctx : Context) (m : Pubkey) (i : ℕ) :
    claimWaln env ctx m i (w.withLive live) = liveOutcome live <$> claimWaln env ctx m i w := by
  simp only [claimWaln, map_bind, map_pure]
  rfl

/-- A forced close works with the terms of the round. -/
lemma closeRound_withLive (ctx : Context) :
    closeRound env ctx (w.withLive live) = liveOutcome live <$> closeRound env ctx w := by
  simp only [closeRound, map_bind]
  refine bind_congr fun _ => bind_congr fun _ => bind_congr fun _ => ?_
  split
  · simp only [map_bind, map_pure]
    rfl
  · rfl

/-- Cancelling reads none of them. -/
lemma cancelRound_withLive (ctx : Context) :
    cancelRound ctx (w.withLive live) = liveOutcome live <$> cancelRound ctx w := by
  simp only [cancelRound, map_bind, map_pure]
  rfl

lemma removeInvestorFromPool_withLive (ctx : Context) (k m : Pubkey) :
    removeInvestorFromPool ctx k m (w.withLive live)
      = liveOutcome live <$> removeInvestorFromPool ctx k m w := by
  simp only [removeInvestorFromPool, map_bind, map_pure]
  rfl

lemma setInvestorUsdcUnlock_withLive (ctx : Context) (k : Pubkey) (t : ℤ) :
    setInvestorUsdcUnlock ctx k t (w.withLive live)
      = liveOutcome live <$> setInvestorUsdcUnlock ctx k t w := by
  simp only [setInvestorUsdcUnlock, map_bind, map_pure]
  rfl

lemma mintAatNft_withLive (ctx : Context) (k : Pubkey) (v : ℕ) :
    mintAatNft ctx k v (w.withLive live) = liveOutcome live <$> mintAatNft ctx k v w := by
  simp only [mintAatNft, map_bind, map_pure]
  rfl

lemma updateAatVolume_withLive (ctx : Context) (k : Pubkey) (v : ℕ) :
    updateAatVolume ctx k v (w.withLive live) = liveOutcome live <$> updateAatVolume ctx k v w := by
  simp only [updateAatVolume, map_bind, map_pure]
  rfl

lemma acceptAuthority_withLive (ctx : Context) :
    acceptAuthority ctx (w.withLive live) = liveOutcome live <$> acceptAuthority ctx w := by
  simp only [acceptAuthority, map_bind, map_pure]
  rfl

lemma fundTreasury_withLive (ctx : Context) (a : ℕ) :
    fundTreasury ctx a (w.withLive live) = liveOutcome live <$> fundTreasury ctx a w := by
  simp only [fundTreasury, map_bind, map_pure]
  rfl

lemma withdrawTreasury_withLive (ctx : Context) (a : ℕ) :
    withdrawTreasury ctx a (w.withLive live) = liveOutcome live <$> withdrawTreasury ctx a w := by
  simp only [withdrawTreasury, map_bind, map_pure]
  rfl

lemma closeRoundRecord_withLive (ctx : Context) (i : ℕ) :
    closeRoundRecord env ctx i (w.withLive live)
      = liveOutcome live <$> closeRoundRecord env ctx i w := by
  simp only [closeRoundRecord, map_bind, map_pure]
  rfl

/-- A setter of anything but the live parameters. -/
lemma adminSet_withLive (ctx : Context) (check : Except TxError Unit)
    (update : ProgramState → ProgramState)
    (hupdate : update (w.withLive live).state
      = (World.withLive { w with state := update w.state } live).state) :
    adminSet ctx (w.withLive live) check update
      = liveOutcome live <$> adminSet ctx w check update := by
  simp only [adminSet, map_bind, map_pure]
  rw [hupdate]
  rfl

end Instructions

/-! ## Selling into the running round -/

/-- While a round runs, a sell is planned with the terms of the round. -/
lemma planSale_withLive (hstarted : w.state.roundStarted = true) (live : Live) (d maxWaln : ℕ)
    (wm um : Pubkey) :
    planSale (w.withLive live).state d wm um maxWaln = planSale w.state d wm um maxWaln := by
  have hsize : (w.withLive live).state.effectiveSize = w.state.effectiveSize := by
    simp [ProgramState.effectiveSize, World.withLive, hstarted]
  have hprice : (w.withLive live).state.effectivePrice = w.state.effectivePrice := by
    simp [ProgramState.effectivePrice, World.withLive, hstarted]
  simp only [planSale, hsize, hprice]
  rfl

/-- While a round runs, no sell begins one. -/
lemma needRoundStart_eq_false {d maxWaln : ℕ} {wm um : Pubkey} {plan : SalePlan}
    (hstarted : w.state.roundStarted = true) (h : planSale w.state d wm um maxWaln = .ok plan) :
    plan.needRoundStart = false := by
  rw [(planSale_ok h).2.plan_eq]
  simp [hstarted]

/-- The sell up to the payment. -/
lemma sellIntoRound_withLive (env : Env) (ctx : Context) (hstarted : w.state.roundStarted = true)
    (live : Live) (wm um : Pubkey) (maxWaln : ℕ) :
    sellIntoRound env ctx wm um maxWaln (w.withLive live)
      = (fun p => (p.1, p.2.1, p.2.2.1, p.2.2.2.withLive live)) <$>
          sellIntoRound env ctx wm um maxWaln w := by
  simp only [sellIntoRound, planSale_withLive hstarted, map_bind, map_pure]
  cases hplan : planSale w.state (env.mint wm).decimals.toNat wm um maxWaln with
  | error e => rw [error_bind, error_bind]
  | ok plan =>
      have hneed := needRoundStart_eq_false hstarted hplan
      simp only [ok_bind, openRound, hneed, Bool.false_eq_true, if_false, paySeller,
        ProgramState.opened, bind_assoc, pure_bind]
      rfl

/-- The settlement, before the next round is begun. -/
lemma settleWorld_withLive (env : Env) (ctx : Context) (live : Live) (d price : ℕ)
    (remaining : List AccountInfo) (w : World) :
    settleWorld env ctx d price remaining (w.withLive live)
      = (fun p => (p.1.withLive live, p.2)) <$> settleWorld env ctx d price remaining w := by
  unfold settleWorld
  split
  · simp only [map_bind, map_pure]
    rfl
  · rfl

/-! ## The sell that settles the round -/

/-- The state apart from the live parameters and the round they begin. -/
def ProgramState.pastRounds (s : ProgramState) : ProgramState :=
  { s with
    floorPriceUsdc := 0
    roundSizeWaln := 0
    lockPeriodSeconds := 0
    currentRoundFloorPrice := 0
    currentRoundSizeWaln := 0
    currentRoundLockPeriod := 0
    totalUsdcLockedForRound := 0
    roundStarted := false }

/-- Two worlds that agree on everything but the live parameters and the round they begin: records
may differ in how much of their USDC is locked for it. -/
structure SamePast (w v : World) : Prop where
  pool : List.Forall₂ Moved w.pool.investors v.pool.investors
  state : v.state.pastRounds = w.state.pastRounds
  usdcVault : v.usdcVault = w.usdcVault
  walnVault : v.walnVault = w.walnVault
  treasury : v.treasury = w.treasury
  roundRecords : v.roundRecords = w.roundRecords
  roundLockedWaln : v.roundLockedWaln = w.roundLockedWaln
  aatNfts : v.aatNfts = w.aatNfts

/-- The live parameters are not part of the past. -/
lemma samePast_withLive (w : World) (live : Live) : SamePast w (w.withLive live) :=
  ⟨forall₂_moved_refl _, rfl, rfl, rfl, rfl, rfl, rfl, rfl⟩

lemma SamePast.symm (h : SamePast w v) : SamePast v w :=
  ⟨forall₂_moved_symm h.pool, h.state.symm, h.usdcVault.symm, h.walnVault.symm, h.treasury.symm,
    h.roundRecords.symm, h.roundLockedWaln.symm, h.aatNfts.symm⟩

lemma SamePast.trans {u : World} (h : SamePast w v) (h' : SamePast v u) : SamePast w u :=
  ⟨forall₂_moved_trans h.pool h'.pool, h'.state.trans h.state, h'.usdcVault.trans h.usdcVault,
    h'.walnVault.trans h.walnVault, h'.treasury.trans h.treasury,
    h'.roundRecords.trans h.roundRecords, h'.roundLockedWaln.trans h.roundLockedWaln,
    h'.aatNfts.trans h.aatNfts⟩

/-- Beginning the next round leaves the past alone. -/
lemma AutoStarted.samePast (h : Inv env w) (hidle : w.state.roundStarted = false)
    (hspent : w.state.currentRoundUsdcSpent = 0) (ha : AutoStarted env w w') : SamePast w w' := by
  have hkeeps := ha.keeps h hidle
  rcases ha with ⟨investors, volume, locked, -, rfl⟩ | ⟨rfl, -⟩
  · refine ⟨hkeeps.pool, ?_, rfl, rfl, rfl, rfl, rfl, rfl⟩
    simp only [ProgramState.pastRounds, ProgramState.snapshot, hspent]
  · exact samePast_withLive w' w'.live

/-- Two worlds that settled a round alike and then had the next one begun, each under its own live
parameters; in the second they may have been set since. -/
def NextRound (env : Env) (w v : World) : Prop :=
  ∃ settled live next live', settled.state.roundStarted = false ∧
    autoStart (settled.decimals env) settled = .ok w ∧
    autoStart (settled.decimals env) (settled.withLive live) = .ok next ∧ v = next.withLive live'

/-- A next round stays one under other live parameters. -/
lemma NextRound.withLive (h : NextRound env w v) (live : Live) :
    NextRound env w (v.withLive live) := by
  obtain ⟨settled, live₁, next, live₂, hidle, hw, hnext, rfl⟩ := h
  exact ⟨settled, live₁, next, live, hidle, hw, hnext, rfl⟩

/-- A settlement that succeeds is followed by a start of the next round that does. -/
lemma settleFullRound_of_settled {remaining : List AccountInfo} {settled : World}
    {allocated : List InvestorAllocated} {closed : RoundClosed} (h : Inv env w)
    (hstarted : w.state.roundStarted = true)
    (hsettle : settleWorld env ctx (w.decimals env) w.state.currentRoundFloorPrice remaining w
      = .ok (settled, allocated, closed)) :
    ∃ next, settleFullRound env ctx (w.decimals env) w.state.currentRoundFloorPrice remaining w
        = .ok (next, allocated, closed) ∧ autoStart (settled.decimals env) settled = .ok next ∧
      settled.state.roundStarted = false ∧ SamePast settled next ∧
      next.state.roundCount = w.state.roundCount + 1 := by
  obtain ⟨dust, hsettled, -⟩ := settleWorld_ok h hstarted hsettle
  obtain ⟨hinv, hidle⟩ := inv_settled h hstarted hsettled
  obtain ⟨next, hnext⟩ := autoStart_total hinv
  have hauto := autoStart_ok hnext
  have hspent : settled.unlockedForRound.state.currentRoundUsdcSpent = 0 := by rw [hsettled.state]
  have hpast : SamePast settled settled.unlockedForRound :=
    ⟨forall₂_moved_refl _, rfl, rfl, rfl, rfl, rfl, rfl, rfl⟩
  have hdecimals : settled.decimals env = w.decimals env := hsettled.decimals_eq
  refine ⟨next, ?_, hnext, hidle, hpast.trans (hauto.samePast hinv hidle hspent), ?_⟩
  · rw [hdecimals] at hnext
    simp only [settleFullRound, hsettle, ok_bind, hnext]
    rfl
  · rw [(hauto.keeps hinv hidle).roundCount, hsettled.state]

/-- **A sell in two worlds** that differ in the live parameters: it has the same outcome in both, or
it settles the round alike in both. -/
lemma sellWaln_withLive {live : Live} (ctx : Context) (wm um : Pubkey) (maxWaln : ℕ)
    (hw : Reachable env w) (hv : Reachable env (w.withLive live))
    (hstarted : w.state.roundStarted = true) :
    sellWaln env ctx wm um maxWaln (w.withLive live)
        = liveOutcome live <$> sellWaln env ctx wm um maxWaln w ∨
      ∃ w' v' r, sellWaln env ctx wm um maxWaln w = .ok (w', r) ∧
        sellWaln env ctx wm um maxWaln (w.withLive live) = .ok (v', r) ∧
        r.roundClosed.isSome = true ∧ NextRound env w' v' ∧ SamePast w' v' ∧
        w'.state.roundCount = w.state.roundCount + 1 := by
  have hinto := sellIntoRound_withLive env ctx hstarted live wm um maxWaln
  unfold sellWaln
  cases hsell : sellIntoRound env ctx wm um maxWaln w with
  | error e =>
      left
      rw [hinto, hsell]
      rfl
  | ok p =>
      obtain ⟨plan, remaining, usdcOut, sold⟩ := p
      rw [hsell] at hinto
      have hinto' : sellIntoRound env ctx wm um maxWaln (w.withLive live)
          = .ok (plan, remaining, usdcOut, sold.withLive live) := hinto
      obtain ⟨hsold, hsoldstarted, hdecimals, hprice, -⟩ := hw.sold hsell
      obtain ⟨hvsold, -⟩ := hv.sold hinto'
      have hwaln : (sold.withLive live).state.currentRoundWaln = sold.state.currentRoundWaln := rfl
      simp only [hinto', ok_bind, hwaln, hdecimals, hprice]
      by_cases hfull : plan.roundSizeWaln ≤ sold.state.currentRoundWaln
      · have hsettle' := settleWorld_withLive env ctx live (sold.decimals env)
          sold.state.currentRoundFloorPrice remaining sold
        simp only [hfull, if_true]
        cases hsettle : settleWorld env ctx (sold.decimals env) sold.state.currentRoundFloorPrice
            remaining sold with
        | error e =>
            left
            rw [hsettle] at hsettle'
            simp only [settleFullRound, hsettle, hsettle']
            rfl
        | ok p =>
            right
            obtain ⟨settled, allocated, closed⟩ := p
            rw [hsettle] at hsettle'
            obtain ⟨next, hnext, hauto, hidle, hpast, hcount⟩ :=
              settleFullRound_of_settled hsold hsoldstarted hsettle
            obtain ⟨next', hnext', hauto', -, hpast', -⟩ :=
              settleFullRound_of_settled hvsold hsoldstarted hsettle'
            refine ⟨next, next', _, by rw [hnext]; rfl, ?_, rfl,
              ⟨settled, live, next', next'.live, hidle, hauto, hauto', rfl⟩, ?_, ?_⟩
            · rw [show settleFullRound env ctx (sold.decimals env) sold.state.currentRoundFloorPrice
                remaining (sold.withLive live) = _ from hnext']
              rfl
            · exact (hpast.symm.trans (samePast_withLive _ live)).trans hpast'
            · rw [hcount, (hw.sold_keeps hsell).roundCount]
      · left
        simp only [hfull, if_false]
        rfl

/-! ## Two runs -/

/-- The instructions that set a live parameter. -/
def Instruction.setsLive : Instruction → Bool
  | .SetFloorPrice _ | .SetRoundSize _ | .SetLockPeriod _ => true
  | _ => false

/-- The two of them that are checked against each other. -/
def Instruction.setsTerms : Instruction → Bool
  | .SetFloorPrice _ | .SetRoundSize _ => true
  | _ => false

/-- A call of an instruction, which may have been inserted into a sequence of calls. -/
structure Call where
  ctx : Context
  instr : Instruction
  inserted : Bool

/-- Try the call: a call that fails leaves the world as it was. -/
def Call.attempt (env : Env) (c : Call) (w : World) : Option Receipt × World :=
  match exec env c.ctx c.instr w with
  | .ok (w', r) => (some r, w')
  | .error _ => (none, w)

/-- Try all calls, and record which succeeded with which receipt. -/
def attempts (env : Env) : List Call → World → List (Call × Option Receipt) × World
  | [], w => ([], w)
  | c :: calls, w =>
    let (r, w') := c.attempt env w
    let (rs, w'') := attempts env calls w'
    ((c, r) :: rs, w'')

/-- Calls that are in both sequences and do not set the terms of a round. -/
def Call.observed (c : Call) : Bool := !c.inserted && !c.instr.setsTerms

/-- The calls without the inserted ones. -/
def original (calls : List Call) : List Call := calls.filter fun c => !c.inserted

/-- What the observed calls achieved. -/
def observations (results : List (Call × Option Receipt)) : List (Call × Option Receipt) :=
  results.filter fun x => x.1.observed

/-- The last call was a sell that filled the round. -/
def FilledLast (results : List (Call × Option Receipt)) : Prop :=
  ∃ earlier ctx wm um a b r, results = earlier ++ [(⟨ctx, .SellWaln wm um a, b⟩, some r)] ∧
    r.roundClosed.isSome = true

/-- A completing sell that comes last still does after one more call in front. -/
lemma FilledLast.cons {results : List (Call × Option Receipt)} (h : FilledLast results)
    (x : Call × Option Receipt) : FilledLast (x :: results) := by
  obtain ⟨earlier, ctx, wm, um, a, b, r, rfl, hclosed⟩ := h
  exact ⟨x :: earlier, ctx, wm, um, a, b, r, rfl, hclosed⟩

/-- Round `n` is running before each of the calls. -/
def RunsThrough (env : Env) (n : ℕ) : List Call → World → Prop
  | [], _ => True
  | c :: calls, w =>
    (w.state.roundStarted = true ∧ w.state.roundCount = n) ∧
      RunsThrough env n calls (c.attempt env w).2

instance RunsThrough.decidable (env : Env) (n : ℕ) :
    ∀ (calls : List Call) (w : World), Decidable (RunsThrough env n calls w)
  | [], _ => .isTrue trivial
  | c :: calls, w =>
    have := RunsThrough.decidable env n calls (c.attempt env w).2
    inferInstanceAs (Decidable (_ ∧ _))

/-! ### One call -/

/-- A call that is attempted leads to a reachable world, also when it fails. -/
lemma Reachable.attempt (c : Call) (h : Reachable env w) : Reachable env (c.attempt env w).2 := by
  unfold Call.attempt
  split
  · rename_i w' r hx
    exact h.step (a := ⟨c.ctx, c.instr, r⟩) hx
  · exact h

/-- An instruction that neither sets a live parameter nor sells. -/
lemma exec_withLive (env : Env) (ctx : Context) (w : World) {i : Instruction} (live : Live)
    (hset : i.setsLive = false)
    (hsell : ∀ wm um a, i ≠ .SellWaln wm um a) :
    exec env ctx i (w.withLive live) = liveOutcome live <$> exec env ctx i w := by
  cases i with
  | SetFloorPrice | SetRoundSize | SetLockPeriod => cases hset
  | SellWaln wm um a => exact absurd rfl (hsell wm um a)
  | SetUsdcWithdrawLock t =>
      exact adminSet_withLive w live ctx _
        (fun s => { s with usdcWithdrawLockSeconds := t.toInt }) rfl
  | SetSellPaused b =>
      exact adminSet_withLive w live ctx _ (fun s => { s with sellPaused := b }) rfl
  | SetFrozen b => exact adminSet_withLive w live ctx _ (fun s => { s with frozen := b }) rfl
  | TransferAuthority k =>
      exact adminSet_withLive w live ctx _ (fun s => { s with pendingAdmin := k }) rfl
  | SetInvestorUsdcUnlock k t => exact setInvestorUsdcUnlock_withLive w live ctx k t.toInt
  | CancelRound => exact cancelRound_withLive w live ctx
  | RemoveInvestorFromPool k m => exact removeInvestorFromPool_withLive w live ctx k m
  | CloseRound => exact closeRound_withLive w live ctx
  | FundTreasury a => exact fundTreasury_withLive w live ctx a.toNat
  | WithdrawTreasury a => exact withdrawTreasury_withLive w live ctx a.toNat
  | DepositUsdc m n a => exact depositUsdc_withLive w live ctx m n a.toNat
  | WithdrawUsdc m a => exact withdrawUsdc_withLive w live ctx m a.toNat
  | ClaimWaln m i => exact claimWaln_withLive w live ctx m i.toNat
  | MintAatNft k v => exact mintAatNft_withLive w live ctx k v.toNat
  | UpdateAatVolume k v => exact updateAatVolume_withLive w live ctx k v.toNat
  | AcceptAuthority => exact acceptAuthority_withLive w live ctx
  | CloseRoundRecord i => exact closeRoundRecord_withLive w live ctx i.toNat

/-- An instruction that does not see the live parameters is attempted with the same result. -/
lemma attempt_of_exec {c : Call} {live : Live}
    (h : exec env c.ctx c.instr (w.withLive live) = liveOutcome live <$> exec env c.ctx c.instr w) :
    c.attempt env (w.withLive live)
      = ((c.attempt env w).1, (c.attempt env w).2.withLive live) := by
  unfold Call.attempt
  rw [h]
  cases exec env c.ctx c.instr w with
  | error e => rfl
  | ok p => rfl

/-- Setting a live parameter, or failing to, changes at most the live parameters. -/
lemma attempt_setsLive (env : Env) (w : World) {c : Call} (hset : c.instr.setsLive = true) :
    ∃ live, (c.attempt env w).2 = w.withLive live := by
  obtain ⟨ctx, i, inserted⟩ := c
  unfold Call.attempt
  split
  · rename_i w' r hx
    cases i with
    | SetFloorPrice p =>
        have hx : setFloorPrice ctx p.toNat w = .ok (w', r) := hx
        obtain ⟨-, -, rfl, -⟩ := adminSet_eq_ok.mp hx
        exact ⟨⟨p.toNat, w.state.roundSizeWaln, w.state.lockPeriodSeconds⟩, rfl⟩
    | SetRoundSize n =>
        have hx : setRoundSize ctx n.toNat w = .ok (w', r) := hx
        obtain ⟨-, -, rfl, -⟩ := adminSet_eq_ok.mp hx
        exact ⟨⟨w.state.floorPriceUsdc, n.toNat, w.state.lockPeriodSeconds⟩, rfl⟩
    | SetLockPeriod t =>
        have hx : setLockPeriod ctx t.toInt w = .ok (w', r) := hx
        obtain ⟨-, -, rfl, -⟩ := adminSet_eq_ok.mp hx
        exact ⟨⟨w.state.floorPriceUsdc, w.state.roundSizeWaln, t.toInt⟩, rfl⟩
    | _ => cases hset
  · exact ⟨w.live, rfl⟩

/-- The lock period is not checked against anything. -/
lemma attempt_setLockPeriod (live : Live) (ctx : Context) (t : Int64) (b : Bool) :
    (Call.attempt env ⟨ctx, .SetLockPeriod t, b⟩ (w.withLive live)).1
      = (Call.attempt env ⟨ctx, .SetLockPeriod t, b⟩ w).1 := by
  have hexec : (Prod.snd <$> exec env ctx (.SetLockPeriod t) (w.withLive live))
      = Prod.snd <$> exec env ctx (.SetLockPeriod t) w := by
    simp only [exec, setLockPeriod, adminSet, map_bind, map_pure]
    rfl
  unfold Call.attempt
  cases hw : exec env ctx (.SetLockPeriod t) w <;>
    cases hv : exec env ctx (.SetLockPeriod t) (w.withLive live) <;>
    simp_all [Functor.map, Except.map]

/-- **One call** that is made in both sequences. -/
lemma attempt_withLive {live : Live} (c : Call) (hw : Reachable env w)
    (hv : Reachable env (w.withLive live)) (hstarted : w.state.roundStarted = true) :
    ((c.instr.setsTerms = false →
        (c.attempt env (w.withLive live)).1 = (c.attempt env w).1) ∧
      ∃ live', (c.attempt env (w.withLive live)).2 = (c.attempt env w).2.withLive live') ∨
    ((c.attempt env (w.withLive live)).1 = (c.attempt env w).1 ∧
      FilledLast [(c, (c.attempt env w).1)] ∧
      NextRound env (c.attempt env w).2 (c.attempt env (w.withLive live)).2 ∧
      SamePast (c.attempt env w).2 (c.attempt env (w.withLive live)).2 ∧
      (c.attempt env w).2.state.roundCount = w.state.roundCount + 1) := by
  by_cases hset : c.instr.setsLive = true
  · left
    obtain ⟨l₁, hl₁⟩ := attempt_setsLive env w hset
    obtain ⟨l₂, hl₂⟩ := attempt_setsLive env (w.withLive live) hset
    refine ⟨fun hterms => ?_, l₂, by rw [hl₁, hl₂]; rfl⟩
    obtain ⟨ctx, i, b⟩ := c
    cases i with
    | SetLockPeriod t => exact attempt_setLockPeriod live ctx t b
    | SetFloorPrice | SetRoundSize => cases hterms
    | _ => cases hset
  · have hset : c.instr.setsLive = false := by simpa using hset
    by_cases hsell : ∃ wm um a, c.instr = .SellWaln wm um a
    · obtain ⟨ctx, i, b⟩ := c
      obtain ⟨wm, um, a, rfl⟩ := hsell
      rcases sellWaln_withLive ctx wm um a.toNat hw hv hstarted
        with hsame | ⟨w', v', r, hx, hx', hclosed, hnext, hpast, hcount⟩
      · left
        have hsame : exec env ctx (.SellWaln wm um a) (w.withLive live)
            = liveOutcome live <$> exec env ctx (.SellWaln wm um a) w := hsame
        rw [attempt_of_exec (c := ⟨ctx, .SellWaln wm um a, b⟩) hsame]
        exact ⟨fun _ => rfl, live, rfl⟩
      · right
        have hx : exec env ctx (.SellWaln wm um a) w = .ok (w', r) := hx
        have hx' : exec env ctx (.SellWaln wm um a) (w.withLive live) = .ok (v', r) := hx'
        simp only [Call.attempt, hx, hx']
        exact ⟨trivial, ⟨[], ctx, wm, um, a, b, r, rfl, hclosed⟩, hnext, hpast, hcount⟩
    · left
      have hexec := exec_withLive env c.ctx w live hset
        fun wm um a heq => hsell ⟨wm, um, a, heq⟩
      rw [attempt_of_exec hexec]
      exact ⟨fun _ => rfl, live, rfl⟩

/-! ### Sequences of calls -/

@[simp] lemma attempts_cons (c : Call) (calls : List Call) (w : World) :
    attempts env (c :: calls) w
      = ((c, (c.attempt env w).1) :: (attempts env calls (c.attempt env w).2).1,
          (attempts env calls (c.attempt env w).2).2) := rfl

/-- An observed call is observed. -/
lemma observations_cons_of_pos {c : Call} {r : Option Receipt}
    {results : List (Call × Option Receipt)} (h : c.observed = true) :
    observations ((c, r) :: results) = (c, r) :: observations results := List.filter_cons_of_pos h

lemma observations_cons_of_neg {c : Call} {r : Option Receipt}
    {results : List (Call × Option Receipt)} (h : c.observed = false) :
    observations ((c, r) :: results) = observations results :=
  List.filter_cons_of_neg (by simp [h])

/-- Observations agree if they do on the first call, where it is observed, and on the others. -/
lemma observations_cons_congr {c : Call} {r r' : Option Receipt}
    {results results' : List (Call × Option Receipt)} (hr : c.observed = true → r = r')
    (h : observations results = observations results') :
    observations ((c, r) :: results) = observations ((c, r') :: results') := by
  cases hobs : c.observed with
  | true => rw [observations_cons_of_pos hobs, observations_cons_of_pos hobs, hr hobs, h]
  | false => rw [observations_cons_of_neg hobs, observations_cons_of_neg hobs, h]

/-- An inserted call is not an original one. -/
lemma original_cons_of_inserted {c : Call} {calls : List Call} (h : c.inserted = true) :
    original (c :: calls) = original calls := List.filter_cons_of_neg (by simp [h])

/-- A call that was not inserted is an original one. -/
lemma original_cons_of_kept {c : Call} {calls : List Call} (h : c.inserted = false) :
    original (c :: calls) = c :: original calls := List.filter_cons_of_pos (by simp [h])

/-- Where there is no original call, all are inserted. -/
lemma inserted_of_original_eq_nil {calls : List Call} (h : original calls = []) :
    ∀ c ∈ calls, c.inserted = true := by
  simpa [original] using h

/-- Inserted calls alone. -/
lemma attempts_inserted (env : Env) (w : World) {calls : List Call}
    (hall : ∀ c ∈ calls, c.inserted = true)
    (hset : ∀ c ∈ calls, c.inserted = true → c.instr.setsLive = true) :
    observations (attempts env calls w).1 = [] ∧
      ∃ live, (attempts env calls w).2 = w.withLive live := by
  induction calls generalizing w with
  | nil => exact ⟨rfl, w.live, rfl⟩
  | cons c calls ih =>
      obtain ⟨hc, hall⟩ := List.forall_mem_cons.mp hall
      obtain ⟨hsetc, hset⟩ := List.forall_mem_cons.mp hset
      obtain ⟨live, hlive⟩ := attempt_setsLive env w (hsetc hc)
      obtain ⟨hobs, live', hlive'⟩ := ih (c.attempt env w).2 hall hset
      rw [attempts_cons, observations_cons_of_neg (by simp [Call.observed, hc])]
      exact ⟨hobs, live', by rw [hlive', hlive]; rfl⟩

/-- After the round is settled, no call of the original sequence is left. -/
lemma original_eq_nil_of_settled {n : ℕ} {calls : List Call} (h : RunsThrough env n calls w)
    (hcount : w.state.roundCount = n + 1) : calls = [] := by
  cases calls with
  | nil => rfl
  | cons c calls =>
      obtain ⟨⟨-, hn⟩, -⟩ := h
      omega

/-- What two runs have in common that started in worlds with different live parameters: the first
makes the original calls, the second all of them.  In the end they differ only in the live
parameters, unless a sell has filled the round; then also in the round begun by that sell. -/
structure Isolated (env : Env) (n : ℕ) (first second : List (Call × Option Receipt) × World) :
    Prop where
  observations : observations second.1 = observations first.1
  past : SamePast first.2 second.2
  running : first.2.state.roundCount = n → ∃ live, second.2 = first.2.withLive live
  apart : (∃ live, second.2 = first.2.withLive live) ∨
    FilledLast first.1 ∧ NextRound env first.2 second.2

/-- The run with the inserted calls follows the original one up to the live parameters, until the
round is settled. -/
lemma attempts_withLive {n : ℕ} {calls : List Call} {live : Live} (hw : Reachable env w)
    (hv : Reachable env (w.withLive live)) (hruns : RunsThrough env n (original calls) w)
    (hset : ∀ c ∈ calls, c.inserted = true → c.instr.setsLive = true) :
    Isolated env n (attempts env (original calls) w) (attempts env calls (w.withLive live)) := by
  induction calls generalizing w live with
  | nil => exact ⟨rfl, samePast_withLive w live, fun _ => ⟨live, rfl⟩, .inl ⟨live, rfl⟩⟩
  | cons c calls ih =>
      obtain ⟨hsetc, hset⟩ := List.forall_mem_cons.mp hset
      have hv' := hv.attempt c
      cases hc : c.inserted with
      | true =>
          obtain ⟨live', hlive'⟩ := attempt_setsLive env (w.withLive live) (hsetc hc)
          rw [original_cons_of_inserted hc] at hruns ⊢
          rw [hlive', World.withLive_withLive] at hv'
          have hrest := ih hw hv' hruns hset
          rw [attempts_cons, hlive', World.withLive_withLive]
          refine ⟨?_, hrest.past, hrest.running, hrest.apart⟩
          rw [observations_cons_of_neg (by simp [Call.observed, hc])]
          exact hrest.observations
      | false =>
          rw [original_cons_of_kept hc] at hruns ⊢
          obtain ⟨⟨hstarted, hcount⟩, hruns⟩ := hruns
          rw [attempts_cons, attempts_cons]
          rcases attempt_withLive c hw hv hstarted with
            ⟨hres, live', hlive'⟩ | ⟨hres, hfilled, hround, hpast, hnext⟩
          · rw [hlive'] at hv' ⊢
            have hrest := ih (hw.attempt c) hv' hruns hset
            refine ⟨observations_cons_congr (fun hobs => hres ?_) hrest.observations, hrest.past,
              hrest.running, hrest.apart.imp id fun h => ⟨h.1.cons _, h.2⟩⟩
            simpa [Call.observed, hc] using hobs
          · -- the call settled the round: only inserted calls are left
            rw [hcount] at hnext
            have hnil := original_eq_nil_of_settled hruns hnext
            obtain ⟨hobs', live', hlive'⟩ := attempts_inserted env
              (c.attempt env (w.withLive live)).2 (inserted_of_original_eq_nil hnil) hset
            rw [hnil]
            refine ⟨observations_cons_congr (fun _ => hres) hobs', ?_,
              fun hn => absurd (hnext.symm.trans hn) (by omega), .inr ⟨hfilled, ?_⟩⟩
            · rw [hlive']
              exact hpast.trans (samePast_withLive _ live')
            · rw [hlive']
              exact hround.withLive live'

/-- **Round isolation**: inserting calls that set live parameters into a sequence of calls that runs
up to the settlement of a round does not change what the other calls achieve, nor how the round is
settled. -/
theorem round_isolation {calls : List Call} (h : Reachable env w)
    (hruns : RunsThrough env w.state.roundCount (original calls) w)
    (hset : ∀ c ∈ calls, c.inserted = true → c.instr.setsLive = true) :
    Isolated env w.state.roundCount (attempts env (original calls) w) (attempts env calls w) :=
  have hself : Reachable env (w.withLive w.live) := h
  attempts_withLive h hself hruns hset

/-- A lower price is inserted before a lower round size is set and the round is filled. -/
def repriced : List Call :=
  [⟨signedBy 1 2 [], .SetFloorPrice 1, true⟩,
   ⟨signedBy 1 2 [], .SetRoundSize 1000000000, false⟩,
   ⟨signedBy 99 2 (roundAccounts 0), .SellWaln 11 10 8000000000, false⟩]

/-- The sell that fills the round pays and settles the same under either price. -/
theorem round_isolation_repriced :
    ∃ w, Reachable (sampleEnv 10) w ∧ w.state.roundStarted = true ∧
      (attempts (sampleEnv 10) (original repriced) w).2.state.roundCount = w.state.roundCount + 1 ∧
      Isolated (sampleEnv 10) w.state.roundCount
        (attempts (sampleEnv 10) (original repriced) w) (attempts (sampleEnv 10) repriced w) := by
  obtain ⟨w₀, h, w, hinit, hrun, hw⟩ := exists_sample_history 10 100 10000000000
    (threeInvestors 10 200 ++ [sell 0 2000000000])
    (fun _ _ w => w.state.roundStarted = true ∧
      RunsThrough (sampleEnv 10) w.state.roundCount (original repriced) w ∧
      (attempts (sampleEnv 10) (original repriced) w).2.state.roundCount = w.state.roundCount + 1)
    (by decide +kernel)
  simp only [decide_eq_true_eq] at hw
  obtain ⟨hstarted, hruns, hcount⟩ := hw
  have hreach := hrun.reachable hinit
  exact ⟨w, hreach, hstarted, hcount, round_isolation hreach hruns (by decide)⟩

/-- The calls of a sequence that were not inserted, and whether they succeeded. -/
def successes (results : List (Call × Option Receipt)) : List Bool :=
  (results.filter fun x => !x.1.inserted).map fun x => x.2.isSome

/-- At the lower price the lower round size is not viable and is refused, although the inserted call
was accepted, and the round that follows cannot be begun. -/
theorem setRoundSize_refused_repriced :
    ∃ w, Reachable (sampleEnv 10) w ∧ w.state.roundStarted = true ∧
      RunsThrough (sampleEnv 10) w.state.roundCount (original repriced) w ∧
      (attempts (sampleEnv 10) (original repriced) w).2.state.roundCount = w.state.roundCount + 1 ∧
      (∀ x ∈ (attempts (sampleEnv 10) repriced w).1,
        x.1.inserted = true → x.1.instr.setsLive = true ∧ x.2.isSome = true) ∧
      successes (attempts (sampleEnv 10) (original repriced) w).1 = [true, true] ∧
      successes (attempts (sampleEnv 10) repriced w).1 = [false, true] ∧
      (attempts (sampleEnv 10) (original repriced) w).2.state.totalUsdcLockedForRound = 10 ∧
      (attempts (sampleEnv 10) repriced w).2.state.roundStarted = false := by
  obtain ⟨w₀, h, w, hinit, hrun, hw⟩ := exists_sample_history 10 100 10000000000
    (threeInvestors 10 200 ++ [sell 0 2000000000])
    (fun _ _ w => w.state.roundStarted = true ∧
      RunsThrough (sampleEnv 10) w.state.roundCount (original repriced) w ∧
      (attempts (sampleEnv 10) (original repriced) w).2.state.roundCount = w.state.roundCount + 1 ∧
      (∀ x ∈ (attempts (sampleEnv 10) repriced w).1,
        x.1.inserted = true → x.1.instr.setsLive = true ∧ x.2.isSome = true) ∧
      successes (attempts (sampleEnv 10) (original repriced) w).1 = [true, true] ∧
      successes (attempts (sampleEnv 10) repriced w).1 = [false, true] ∧
      (attempts (sampleEnv 10) (original repriced) w).2.state.totalUsdcLockedForRound = 10 ∧
      (attempts (sampleEnv 10) repriced w).2.state.roundStarted = false)
    (by decide +kernel)
  exact ⟨w, hrun.reachable hinit, of_decide_eq_true hw⟩

end Floor
