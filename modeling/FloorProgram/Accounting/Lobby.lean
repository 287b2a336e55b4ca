import FloorProgram.Refinement

/-!
# The lobby

`total_usdc_in_lobby` is the USDC of the pool, deposited and locked, in every reachable world.  So
none of the subtractions from it can fail: a withdrawal and a removal take at most one record's
deposit, and a settlement takes at most the locks.
-/

namespace Floor

open Checked Loop Keyed

variable {env : Env} {w : World}

/-- A withdrawal does not fail on arithmetic. -/
lemma withdrawUsdc_failsOnly (h : Inv env w) (ctx : Context) (usdcMint : Pubkey) (amount : ℕ) :
    FailsOnly (· ≠ .Program .ArithmeticOverflow) (withdrawUsdc ctx usdcMint amount w) := by
  refine failsOnly_bind (failsOnly_ensure fun _ => by decide) fun _ _ => ?_
  refine failsOnly_bind (failsOnly_ensure fun _ => by decide) fun _ _ => ?_
  refine failsOnly_bind (failsOnly_okOr fun _ => by decide) fun r hr => ?_
  refine failsOnly_bind (failsOnly_ensure fun _ => by decide) fun _ _ => ?_
  refine failsOnly_bind (failsOnly_ensure fun _ => by decide) fun _ _ => ?_
  refine failsOnly_bind (failsOnly_ensure fun _ => by decide) fun _ hle => ?_
  have hle := ensure_eq_ok.mp hle
  -- the amount is at most the record's deposit, which is part of the lobby
  have hlobby : r.usdcDeposited ≤ w.state.totalUsdcInLobby := by
    rw [h.lobby.lobby]
    exact (Nat.le_add_right _ _).trans (position_le_poolUsdc (lookup_mem (okOr_eq_ok.mp hr)))
  rw [checkedSub_of_le hle, arith_some, ok_bind]
  refine failsOnly_bind (failsOnly_transferOut (by decide) _ _ _) fun _ _ => ?_
  rw [checkedSub_of_le (hle.trans hlobby), arith_some, ok_bind]
  exact failsOnly_pure _

/-- A removal does not fail on arithmetic. -/
lemma removeInvestorFromPool_failsOnly (h : Inv env w) (ctx : Context)
    (investor usdcMint : Pubkey) :
    FailsOnly (· ≠ .Program .ArithmeticOverflow)
      (removeInvestorFromPool ctx investor usdcMint w) := by
  refine failsOnly_bind (failsOnly_ensure fun _ => by decide) fun _ _ => ?_
  refine failsOnly_bind (failsOnly_ensure fun _ => by decide) fun _ _ => ?_
  refine failsOnly_bind (failsOnly_okOr fun _ => by decide) fun idx _ => ?_
  refine failsOnly_bind (failsOnly_okOr fun _ => by decide) fun r hr => ?_
  refine failsOnly_bind (failsOnly_ensure fun _ => by decide) fun _ _ => ?_
  have hlobby : r.usdcDeposited ≤ w.state.totalUsdcInLobby := by
    rw [h.lobby.lobby]
    have hmem : r ∈ w.pool.investors := List.mem_of_getElem? (okOr_eq_ok.mp hr)
    exact (Nat.le_add_right _ _).trans (position_le_poolUsdc hmem)
  refine failsOnly_bind ?_ fun _ _ => failsOnly_pure _
  refine failsOnly_ite (fun _ => ?_) fun _ => failsOnly_ok _
  refine failsOnly_bind (failsOnly_transferOut (by decide) _ _ _) fun _ _ => ?_
  rw [checkedSub_of_le hlobby, arith_some, ok_bind]
  exact failsOnly_pure _

/-- What a settlement charges is in the lobby. -/
lemma Inv.lockedUsdc_le (h : Inv env w) :
    lockedUsdc w.pool.investors ≤ w.state.totalUsdcInLobby := by
  rw [h.lobby.lobby]
  exact lockedUsdc_le_poolUsdc _

/-- A full round charges its locks. -/
lemma settlePool_spent (h : Inv env w) (hstarted : w.state.roundStarted = true) {now : ℤ} {dust : ℕ}
    {investors : List InvestorRecord} {totals : SettleTotals}
    (hpool : settlePool (10 ^ w.decimals env) w.state.currentRoundFloorPrice now dust
      w.pool.investors = .ok (investors, totals)) :
    totals.totalUsdcSpent = lockedUsdc w.pool.investors :=
  (settlePool_settlement h.keys
    (fun _ hr =>
      (h.round hstarted).baseWaln_pos (mem_participants.mp hr).1 (mem_participants.mp hr).2)
    (h.round hstarted).participants_ne_nil hpool).1

/-- **Lobby accounting**, and what follows for the subtractions from the lobby total. -/
theorem lobby_accounting (h : Reachable env w) :
    w.state.totalUsdcInLobby
        = (w.pool.investors.map fun r => r.usdcDeposited + r.usdcLockedCurrentRound).sum ∧
      w.state.totalUsdcLockedForRound
        = (w.pool.investors.map fun r => r.usdcLockedCurrentRound).sum ∧
      (w.state.roundStarted = false →
        (∀ r ∈ w.pool.investors, r.usdcLockedCurrentRound = 0) ∧ w.state.currentRoundWaln = 0 ∧
          w.state.currentRoundUsdcSpent = 0) ∧
      (∀ ctx usdcMint amount,
        withdrawUsdc ctx usdcMint amount w ≠ .error (.Program .ArithmeticOverflow)) ∧
      (∀ ctx investor usdcMint,
        removeInvestorFromPool ctx investor usdcMint w ≠ .error (.Program .ArithmeticOverflow)) ∧
      (∀ ctx walnMint usdcMint maxWaln plan remaining usdcOut sold scale investors totals,
        sellIntoRound env ctx walnMint usdcMint maxWaln w = .ok (plan, remaining, usdcOut, sold) →
        walnScale (env.mint walnMint).decimals.toNat = .ok scale →
        settlePool scale plan.floorPriceUsdc ctx.now sold.state.walnDustCarryover
          sold.pool.investors = .ok (investors, totals) →
        (checkedSub sold.state.totalUsdcInLobby totals.totalUsdcSpent).isSome = true) ∧
      (∀ scale investors totals,
        closePool scale w.state.currentRoundFloorPrice w.state.currentRoundWaln
          w.state.currentRoundUsdcSpent w.pool.investors = .ok (investors, totals) →
        (checkedSub w.state.totalUsdcInLobby totals.totalUsdcSpent).isSome = true) := by
  obtain ⟨hinv, -⟩ := reachable_inv h
  refine ⟨hinv.lobby.lobby, hinv.lobby.locked, fun hidle => ?_, fun ctx m a hfail => ?_,
    fun ctx k m hfail => ?_, ?_, ?_⟩
  · obtain ⟨hlocks, hwaln, hspent⟩ := hinv.lobby.idle hidle
    exact ⟨lockedUsdc_eq_zero.mp hlocks, hwaln, hspent⟩
  · exact withdrawUsdc_failsOnly hinv ctx m a _ hfail rfl
  · exact removeInvestorFromPool_failsOnly hinv ctx k m _ hfail rfl
  · intro ctx wm um maxWaln plan remaining usdcOut sold scale investors totals hsell hscale hpool
    obtain ⟨hsold, hstarted, hdecimals, hprice, -⟩ := h.sold hsell
    obtain ⟨-, rfl⟩ := walnScale_eq_ok.mp hscale
    rw [hdecimals, hprice] at hpool
    rw [settlePool_spent hsold hstarted hpool, checkedSub_of_le hsold.lockedUsdc_le]
    rfl
  · intro scale investors totals hpool
    obtain ⟨-, -, hle, -, hspent⟩ := closePool_eq_ok hpool
    rw [hspent, checkedSub_of_le (hle.trans hinv.lockedUsdc_le)]
    rfl

/-- Three deposits of two units each: six in the lobby, three of them locked for the round that the
sell began. -/
theorem lobby_accounting_three_investors :
    ∃ w, Reachable (sampleEnv 9) w ∧ w.state.totalUsdcInLobby = 6 ∧
      (w.pool.investors.map fun r => r.usdcDeposited + r.usdcLockedCurrentRound).sum = 6 ∧
      (w.pool.investors.map fun r => r.usdcLockedCurrentRound).sum = 3 := by
  obtain ⟨w₀, hist, w, hinit, hrun, hw⟩ := exists_sample_history 9 1 5000000000
    (threeInvestors 10 2 ++ [sell 0 4000000000])
    (fun _ _ w => w.state.totalUsdcInLobby = 6 ∧ w.state.totalUsdcLockedForRound = 3)
    (by decide +kernel)
  have hreach := hrun.reachable hinit
  obtain ⟨hlobby, hlocked, -⟩ := lobby_accounting hreach
  simp only [decide_eq_true_eq] at hw
  exact ⟨w, hreach, hw.1, hlobby.symm.trans hw.1, hlocked.symm.trans hw.2⟩

end Floor
