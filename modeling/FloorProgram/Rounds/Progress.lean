import FloorProgram.Settling

/-!
# Progress of a round

While a round runs there is always wALN left to sell into it that is worth at least one unit of
USDC, so offering all of it is never rejected for the amount.  And the first sell of a round is
never below the minimum, so nobody can end the time in which the round can be cancelled with less.
-/

namespace Floor

open Checked Loop Keyed Search

variable {env : Env} {w w' : World} {ctx : Context}

/-- The errors that reject the amount of a sell. -/
abbrev RejectsAmount (e : TxError) : Prop :=
  e = .Program .ZeroAmount ∨ e = .Program .SellLeavesUnpayableDust ∨
    e = .Program .SellAmountTooSmall

/-! ## The stages that do not look at the amount -/

/-- Hook accounts that are missing or wrong do not reject the amount. -/
lemma sellHookAccounts_failsOnly (ctx : Context) (walnMint : Pubkey) :
    FailsOnly (¬ RejectsAmount ·) (sellHookAccounts env ctx walnMint) := by
  unfold sellHookAccounts
  split
  · refine failsOnly_bind (failsOnly_require fun _ => by decide) fun _ _ => ?_
    refine failsOnly_bind ?_ fun _ _ => ?_
    · exact failsOnly_validateHookAccounts (by decide) (by decide) _ _ _ _
    exact failsOnly_pure _
  · exact failsOnly_ok _

lemma walnScale_failsOnly (d : ℕ) : FailsOnly (¬ RejectsAmount ·) (walnScale d) :=
  failsOnly_okOr fun _ => by decide

/-- Giving the dust away can overflow, or panic over an index. -/
lemma awardDust_failsOnly (now : ℤ) (dust : ℕ) (investors : List InvestorRecord)
    (t : SettleTotals) : FailsOnly (¬ RejectsAmount ·) (awardDust now dust investors t) := by
  refine failsOnly_ite (fun _ => ?_) fun _ => failsOnly_ok _
  dsimp only
  split
  · exact failsOnly_error (by decide)
  · refine failsOnly_bind (failsOnly_arith (by decide)) fun _ _ => ?_
    refine failsOnly_bind (failsOnly_arith (by decide)) fun _ _ => ?_
    exact failsOnly_bind (failsOnly_creditWinner (by decide) _ _ _) fun _ _ => failsOnly_pure _

/-- The settlement of the pool does not reject the amount. -/
lemma settlePool_failsOnly (scale price : ℕ) (now : ℤ) (dust : ℕ)
    (investors : List InvestorRecord) :
    FailsOnly (¬ RejectsAmount ·) (settlePool scale price now dust investors) := by
  refine failsOnly_bind ?_ fun _ _ => awardDust_failsOnly _ _ _ _
  have hrecord := failsOnly_settleRecord (P := (¬ RejectsAmount ·)) (by decide) scale price
  exact failsOnly_committed (failsOnly_forMut hrecord _ _)

/-- The settlement as a whole rejects no amount. -/
lemma settleWorld_failsOnly (d price : ℕ) (remaining : List AccountInfo) (w : World) :
    FailsOnly (¬ RejectsAmount ·) (settleWorld env ctx d price remaining w) := by
  unfold settleWorld
  split
  · refine failsOnly_bind (failsOnly_arith (by decide)) fun _ _ => ?_
    refine failsOnly_bind (failsOnly_ensure fun _ => by decide) fun _ _ => ?_
    refine failsOnly_bind (failsOnly_ensure fun _ => by decide) fun _ _ => ?_
    refine failsOnly_bind (walnScale_failsOnly d) fun _ _ => ?_
    refine failsOnly_bind (settlePool_failsOnly _ _ _ _ _) fun _ _ => ?_
    refine failsOnly_bind (failsOnly_writeRoundLockedWaln (by decide)) fun _ _ => ?_
    refine failsOnly_bind (failsOnly_mapM fun a _ => ?_) fun _ _ => ?_
    · exact failsOnly_bind (failsOnly_mulDivU64 (by decide) _ _ _) fun _ _ => failsOnly_pure _
    refine failsOnly_bind (failsOnly_writeRoundRecord (by decide)) fun _ _ => ?_
    refine failsOnly_bind (failsOnly_arith (by decide)) fun _ _ => ?_
    refine failsOnly_bind (failsOnly_arith (by decide)) fun _ _ => ?_
    refine failsOnly_bind ?_ fun _ _ => failsOnly_pure _
    refine failsOnly_bind (failsOnly_arith (by decide)) fun _ _ => ?_
    refine failsOnly_bind (failsOnly_arith (by decide)) fun _ _ => ?_
    exact failsOnly_arith (by decide)
  · exact failsOnly_error (by decide)

/-! ## The stages that do -/

/-- A plan for the rest of a running round. -/
lemma planSale_failsOnly {d maxWaln : ℕ} {walnMint usdcMint : Pubkey}
    (hlt : w.state.currentRoundWaln < w.state.currentRoundSizeWaln)
    (hstarted : w.state.roundStarted = true)
    (hmax : w.state.currentRoundSizeWaln - w.state.currentRoundWaln ≤ maxWaln) :
    FailsOnly (¬ RejectsAmount ·) (planSale w.state d walnMint usdcMint maxWaln) := by
  unfold planSale
  simp only [ProgramState.effectiveSize, ProgramState.effectiveWaln, hstarted, if_true,
    checkedSub_of_le hlt.le, arith_some, ok_bind, Nat.min_eq_right hmax]
  refine failsOnly_bind (failsOnly_ensure fun _ => by decide) fun _ _ => ?_
  refine failsOnly_bind (failsOnly_ensure fun _ => by decide) fun _ _ => ?_
  refine failsOnly_bind (failsOnly_ensure fun hno => absurd (by omega) hno) fun _ _ => ?_
  refine failsOnly_bind (failsOnly_ensure fun _ => by decide) fun _ _ => ?_
  refine failsOnly_bind (failsOnly_ensure fun _ => by decide) fun _ _ => ?_
  refine failsOnly_bind (failsOnly_ensure fun hno => absurd (by omega) hno) fun _ _ => ?_
  -- the sale leaves nothing over, so the dust guard has nothing to look at
  rw [checkedSub_of_le le_rfl, arith_some, ok_bind, Nat.sub_self, requirePayableRemainder,
    if_pos rfl, ok_bind]
  refine failsOnly_bind (failsOnly_ensure fun hno => absurd (by simp) hno) fun _ _ => ?_
  exact failsOnly_pure _

/-- Offered the rest or more, the plan of a running round sells exactly the rest. -/
lemma planSale_rest {d maxWaln : ℕ} {walnMint usdcMint : Pubkey} {plan : SalePlan}
    (hstarted : w.state.roundStarted = true)
    (hmax : w.state.currentRoundSizeWaln - w.state.currentRoundWaln ≤ maxWaln)
    (hplan : planSale w.state d walnMint usdcMint maxWaln = .ok plan) :
    walnMint = w.state.walnMint ∧
      plan = { needRoundStart := false, floorPriceUsdc := w.state.currentRoundFloorPrice,
               roundSizeWaln := w.state.currentRoundSizeWaln,
               walnAmount := w.state.currentRoundSizeWaln - w.state.currentRoundWaln } := by
  obtain ⟨hmint, hplanned⟩ := planSale_ok hplan
  refine ⟨hmint, ?_⟩
  rw [hplanned.plan_eq]
  simp only [ProgramState.effectiveSize, ProgramState.effectiveWaln, ProgramState.effectivePrice,
    hstarted, if_true, Bool.not_true, Nat.min_eq_right hmax]

/-- The settlement of a full round, with the start of the next one. -/
lemma settleFullRound_failsOnly {remaining : List AccountInfo} (h : Inv env w)
    (hstarted : w.state.roundStarted = true) :
    FailsOnly (¬ RejectsAmount ·) (settleFullRound env ctx (w.decimals env)
      w.state.currentRoundFloorPrice remaining w) := by
  refine failsOnly_bind (settleWorld_failsOnly _ _ _ _)
    fun ⟨settled, allocated, closed⟩ hsettle => ?_
  obtain ⟨dust, hsettled, -⟩ := settleWorld_ok h hstarted hsettle
  obtain ⟨next, hnext⟩ := autoStart_total (inv_settled h hstarted hsettled).1
  rw [hsettled.decimals_eq] at hnext
  simp only [hnext, ok_bind]
  exact failsOnly_pure _

/-- **Offering the rest of the round** is not rejected for the amount. -/
lemma sellWaln_failsOnly {maxWaln : ℕ} {walnMint usdcMint : Pubkey} (h : Reachable env w)
    (hstarted : w.state.roundStarted = true)
    (hmax : w.state.currentRoundSizeWaln - w.state.currentRoundWaln ≤ maxWaln) :
    FailsOnly (¬ RejectsAmount ·) (sellWaln env ctx walnMint usdcMint maxWaln w) := by
  obtain ⟨hlt, hworth⟩ := (reachable_inv h).2 hstarted
  refine failsOnly_bind ?_ fun ⟨plan, remaining, usdcOut, sold⟩ hsell => ?_
  · refine failsOnly_bind (planSale_failsOnly hlt hstarted hmax) fun plan hplan => ?_
    obtain ⟨rfl, rfl⟩ := planSale_rest hstarted hmax hplan
    refine failsOnly_bind (failsOnly_ok _) fun pool _ => ?_
    refine failsOnly_bind ?_ fun _ _ => failsOnly_pure _
    refine failsOnly_bind (walnScale_failsOnly _) fun scale hscale => ?_
    refine failsOnly_bind (failsOnly_mulDivU64 (by decide) _ _ _) fun out hout => ?_
    refine failsOnly_bind (failsOnly_ensure fun hno => absurd ?_ hno) fun _ _ => ?_
    · obtain ⟨-, rfl⟩ := walnScale_eq_ok.mp hscale
      obtain ⟨-, -, -, rfl⟩ := mulDivU64_eq_ok.mp hout
      exact hworth
    refine failsOnly_bind (sellHookAccounts_failsOnly _ _) fun _ _ => ?_
    refine failsOnly_bind (failsOnly_transferIn (by decide) _ _ _) fun _ _ => ?_
    refine failsOnly_bind (failsOnly_transferOut (by decide) _ _ _) fun _ _ => ?_
    refine failsOnly_bind (failsOnly_arith (by decide)) fun _ _ => ?_
    refine failsOnly_bind (failsOnly_arith (by decide)) fun _ _ => ?_
    exact failsOnly_pure _
  · obtain ⟨hsold, hstarted', hdecimals, hprice, -⟩ := h.sold hsell
    refine failsOnly_ite (fun _ => ?_) fun _ => failsOnly_pure _
    rw [hdecimals, hprice]
    exact failsOnly_bind (settleFullRound_failsOnly hsold hstarted') fun _ _ => failsOnly_pure _

/-! ## The first sell of a round -/

/-- A sell that finds the round empty brings at least the minimum. -/
lemma Paid.minimum {maxWaln walnAmount usdcOut : ℕ} (hp : Paid env maxWaln walnAmount usdcOut w w')
    (hmin : MIN_SELL_WALN ≤ w.state.currentRoundSizeWaln) (hempty : w.state.currentRoundWaln = 0) :
    MIN_SELL_WALN ≤ walnAmount := by
  rcases hp.large with hne | hlarge | hrest
  · exact absurd hempty hne
  · exact hlarge
  · omega

/-- Opening a round that is empty leaves it empty. -/
lemma Opened.waln (ho : Opened env w w') :
    w'.state.currentRoundWaln = w.state.currentRoundWaln := by
  rcases ho with ⟨-, rfl⟩ | ⟨-, _, _, _, -, rfl⟩ <;> rfl

/-- Whatever makes the wALN of a round positive brought at least the minimum. -/
lemma Effect.minimum {i : Instruction} {r : Receipt} (h : Inv env w)
    (hopen : w.state.roundStarted = true → RoundOpen (w.decimals env) w.state)
    (he : Effect env w ctx i w' r) (hempty : w.state.currentRoundWaln = 0)
    (hsold : w'.state.currentRoundWaln ≠ 0 ∨ 0 < r.walnIn) : MIN_SELL_WALN ≤ r.walnIn := by
  have hbring : ∀ {w₁ w₂ : World} {maxWaln walnAmount usdcOut : ℕ}, Opened env w w₁ →
      Paid env maxWaln walnAmount usdcOut w₁ w₂ → MIN_SELL_WALN ≤ walnAmount := by
    intro w₁ w₂ maxWaln walnAmount usdcOut ho hp
    obtain ⟨hinv₁, -⟩ := inv_opened h hopen ho
    exact hp.minimum (hinv₁.round hp.started).size_min (ho.waln.trans hempty)
  cases he with
  | Sell ho hp _ => exact hbring ho hp
  | SellFull ho hp _ _ _ _ => exact hbring ho hp
  | Close _ _ hsettled =>
      rcases hsold with hsold | hsold
      · exact absurd (by rw [hsettled.state]) hsold
      · exact absurd hsold (lt_irrefl 0)
  | Cancel => simp at hsold
  | _ => exact absurd (hsold.resolve_right (lt_irrefl 0)) (not_not_intro hempty)

/-- **Round progress.** -/
theorem round_progress (h : Reachable env w) :
    (w.state.roundStarted = true →
      MIN_SELL_WALN ≤ w.state.currentRoundSizeWaln ∧
      w.state.currentRoundWaln < w.state.currentRoundSizeWaln ∧
      (w.state.currentRoundWaln = 0 ∨ MIN_SELL_WALN ≤ w.state.currentRoundWaln) ∧
      1 ≤ (w.state.currentRoundSizeWaln - w.state.currentRoundWaln)
        * w.state.currentRoundFloorPrice / 10 ^ w.state.walnDecimals ∧
      w.state.currentRoundUsdcSpent * 10 ^ w.state.walnDecimals
        ≤ w.state.currentRoundWaln * w.state.currentRoundFloorPrice) ∧
    (w.state.roundStarted = true → w.state.sellPaused = false → w.state.frozen = false →
      ∀ ctx walnMint usdcMint maxWaln,
        w.state.currentRoundSizeWaln - w.state.currentRoundWaln ≤ maxWaln →
        ∀ e, sellWaln env ctx walnMint usdcMint maxWaln w = .error e →
          e ≠ .Program .ZeroAmount ∧ e ≠ .Program .SellLeavesUnpayableDust ∧
            e ≠ .Program .SellAmountTooSmall) ∧
    (w.state.currentRoundWaln = 0 →
      (∀ tx w', Step env w tx w' → w'.state.currentRoundWaln ≠ 0 →
        MIN_SELL_WALN ≤ tx.receipt.walnIn) ∧
      ∀ ctx walnMint usdcMint (maxWaln : UInt64) w' r, maxWaln.toNat < MIN_SELL_WALN →
        sellWaln env ctx walnMint usdcMint maxWaln.toNat w ≠ .ok (w', r)) := by
  obtain ⟨hinv, hopen⟩ := reachable_inv h
  refine ⟨fun hstarted => ?_, fun hstarted _ _ ctx wm um maxWaln hmax e he => ?_,
    fun hempty => ⟨fun tx w' hstep hsold => ?_, fun ctx wm um maxWaln w' r hlt hok => ?_⟩⟩
  · have hround := hinv.round hstarted
    rw [hinv.viable.decimals]
    exact ⟨hround.size_min, (hopen hstarted).1, hround.waln_min, (hopen hstarted).2,
      hround.spent_le⟩
  · have := sellWaln_failsOnly h hstarted hmax e he
    simpa only [RejectsAmount, not_or] using this
  · exact (h.effect hstep).minimum hinv hopen hempty (.inl hsold)
  · have he := sellWaln_effect hinv hopen hok
    have hle : r.walnIn ≤ maxWaln.toNat ∧ 0 < r.walnIn := by
      cases he with
      | Configure hi => simp [Instruction.configures] at hi
      | ManageRent hi => simp [Instruction.managesRent] at hi
      | Sell _ hp _ => exact ⟨hp.amount ▸ Nat.min_le_left _ _, hp.amount_pos⟩
      | SellFull _ hp _ _ _ _ => exact ⟨hp.amount ▸ Nat.min_le_left _ _, hp.amount_pos⟩
    have := he.minimum hinv hopen hempty (.inr hle.2)
    omega

/-- Four billion of five are sold: the rest is worth one unit. -/
theorem round_progress_last_unit :
    ∃ w, Reachable (sampleEnv 9) w ∧ w.state.roundStarted = true ∧
      w.state.currentRoundWaln = 4000000000 ∧ w.state.currentRoundSizeWaln = 5000000000 ∧
      1 ≤ (w.state.currentRoundSizeWaln - w.state.currentRoundWaln)
        * w.state.currentRoundFloorPrice / 10 ^ w.state.walnDecimals := by
  obtain ⟨w₀, hist, w, hinit, hrun, hw⟩ := exists_sample_history 9 1 5000000000
    (threeInvestors 10 2 ++ [sell 0 4000000000])
    (fun _ _ w => w.state.roundStarted = true ∧ w.state.currentRoundWaln = 4000000000 ∧
      w.state.currentRoundSizeWaln = 5000000000)
    (by decide +kernel)
  have hreach := hrun.reachable hinit
  simp only [decide_eq_true_eq] at hw
  obtain ⟨hstarted, hwaln, hsize⟩ := hw
  obtain ⟨-, -, -, hworth, -⟩ := (round_progress hreach).1 hstarted
  exact ⟨w, hreach, hstarted, hwaln, hsize, hworth⟩

end Floor
