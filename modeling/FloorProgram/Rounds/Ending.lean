import FloorProgram.Settling
import FloorProgram.Rounds.ForcedClose

/-!
# Can the admin end the round?

A round into which nothing was sold can always be cancelled.  Any other can be closed by force, if
the clock and the lock period of the round fit into a timestamp, and if the locks cover what the
sellers were paid.  Everything else `close_round` checks holds in a reachable world.

Neither of the two is guaranteed.  `set_lock_period` accepts any period, and the locks stay below
the cap when the rounding gap could not be placed.
-/

namespace Floor

open Checked Loop Keyed Search

variable {env : Env} {w w' : World} {ctx : Context}

/-! ## Cancelling -/

lemma Inv.position_lt (h : Inv env w) {r : InvestorRecord} (hr : r ∈ w.pool.investors) :
    r.position < 2 ^ 64 := by
  have := position_le_poolUsdc hr
  have := h.lobby.lobby
  have := h.lobby.lobby_lt
  omega

/-- An empty round can be cancelled if every record has room for its lock, and the locks go back. -/
lemma cancelRound_of_room (hadmin : w.state.admin = ctx.signer)
    (hstarted : w.state.roundStarted = true) (hempty : w.state.currentRoundWaln = 0)
    (hroom : ∀ r ∈ w.pool.investors, r.position < 2 ^ 64) :
    ∃ w', cancelRound ctx w = .ok (w', {}) ∧
      w'.pool = { investors := w.pool.investors.map unlockedRecord } ∧
      w'.state.totalUsdcInLobby = w.state.totalUsdcInLobby := by
  obtain ⟨investors, hloop⟩ := forMut_unlockRecord_total hroom
  obtain rfl := forMut_unlockRecord hloop
  rw [cancelRound, adminOnly, ensure_of _ hadmin, ok_bind, ensure_of _ hstarted, ok_bind,
    ensure_of _ hempty, ok_bind, hloop, committed_ok, ok_bind]
  exact ⟨_, rfl, rfl, rfl⟩

/-- An empty round can be cancelled. -/
lemma cancelRound_total (h : Inv env w) (hadmin : w.state.admin = ctx.signer)
    (hstarted : w.state.roundStarted = true) (hempty : w.state.currentRoundWaln = 0) :
    ∃ w', cancelRound ctx w = .ok (w', {}) := by
  obtain ⟨w', hcancel, -⟩ :=
    cancelRound_of_room hadmin hstarted hempty fun r hr => h.position_lt hr
  exact ⟨w', hcancel⟩

/-! ## Closing by force -/

/-- What closing the round by force charges every record of the pool, and the wALN it hands out. -/
def closeCharges (env : Env) (w : World) : List Charge :=
  charges
    (closeTerms (10 ^ w.decimals env) w.state.currentRoundFloorPrice w.state.currentRoundWaln
      w.state.currentRoundUsdcSpent w.pool.investors)
    (closeStart w.state.currentRoundWaln w.state.currentRoundUsdcSpent w.pool.investors)
    w.pool.investors

/-- What the admin brings to end a round: the right signature at a time before `2 ^ 40` and, unless
the round is empty, the two addresses of the round, a treasury that can pay for them, a round
counter that does not overflow, and lifetime counters that take the charges of the close.

The treasury has to cover the rent of both accounts.  The runtime also demands that what is left in
it is nothing, or enough for its own rent; this rule is not part of the program, and a funded
treasury is taken to satisfy it. -/
structure Equipped (env : Env) (ctx : Context) (w : World) : Prop where
  admin : w.state.admin = ctx.signer
  now_nonneg : 0 ≤ ctx.now
  now_lt : ctx.now < 2 ^ 40
  accounts : w.state.currentRoundWaln ≠ 0 → ∃ recordInfo lockedInfo rest,
    ctx.remainingAccounts = recordInfo :: lockedInfo :: rest ∧
    recordInfo.key = .RoundRecord w.state.roundCount ∧
    lockedInfo.key = .RoundLockedWaln w.state.roundCount
  treasury : w.state.currentRoundWaln ≠ 0 →
    env.minimumBalance (RoundLockedWaln.space
        (w.pool.investors.filter fun r => 0 < r.usdcLockedCurrentRound).length)
      + env.minimumBalance RoundRecord.space ≤ w.treasury
  roundCount : w.state.currentRoundWaln ≠ 0 → w.state.roundCount + 1 < 2 ^ 64
  lifetimes : w.state.currentRoundWaln ≠ 0 →
    w.state.currentRoundUsdcSpent ≤ w.state.totalUsdcLockedForRound →
    LifetimesFit w.pool.investors (closeCharges env w)

/-- A round that was sold into, and whose locks cover what was paid, meets the conditions of a
forced close. -/
lemma Inv.closable (h : Inv env w) (hstarted : w.state.roundStarted = true)
    (hsold : 0 < w.state.currentRoundWaln)
    (hle : w.state.currentRoundUsdcSpent ≤ lockedUsdc w.pool.investors) :
    Closable (10 ^ w.decimals env) w.state.currentRoundFloorPrice w.state.currentRoundWaln
      w.state.currentRoundUsdcSpent w.pool.investors := by
  have hround := h.round hstarted
  have hbase := hround.sum_baseWaln_le
  have hsize := hround.size_lt
  have hwaln := hround.waln_le
  have hlobby := h.lobby.lobby
  have hlobby_lt := h.lobby.lobby_lt
  have hterm : ∀ r ∈ w.pool.investors,
      baseWaln (10 ^ w.decimals env) w.state.currentRoundFloorPrice r
        ≤ (w.pool.investors.map
            (baseWaln (10 ^ w.decimals env) w.state.currentRoundFloorPrice)).sum :=
    fun r hr => List.single_le_sum (fun _ _ => Nat.zero_le _) _ (List.mem_map_of_mem hr)
  obtain ⟨r, hr⟩ := List.exists_mem_of_ne_nil _ hround.participants_ne_nil
  obtain ⟨hmem, hpos⟩ := mem_participants.mp hr
  exact
    { length_le := h.count_le
      full := fun r hr => hround.lock_mul_lt hr
      full_lt := fun r hr => by have := hterm r hr; omega
      full_pos := (hround.baseWaln_pos hmem hpos).trans_le (hterm r hmem)
      waln := by omega
      paid_pos := hround.spent_pos hsold
      paid_le := hle
      usdc := by omega
      volume := (h.aat.poolVolume_le h.keys).trans_lt (by decide) }

/-- Every check of the three passes holds once the locks cover the payments and the lifetime
counters take the charges. -/
lemma closePool_ok (h : Inv env w) (hstarted : w.state.roundStarted = true)
    (hsold : 0 < w.state.currentRoundWaln)
    (hle : w.state.currentRoundUsdcSpent ≤ lockedUsdc w.pool.investors)
    (hlife : LifetimesFit w.pool.investors (closeCharges env w)) :
    ∃ investors t, closePool (10 ^ w.decimals env) w.state.currentRoundFloorPrice
      w.state.currentRoundWaln w.state.currentRoundUsdcSpent w.pool.investors
        = .ok (investors, t) := by
  rw [closeCharges] at hlife
  rw [closePool_charges (h.closable hstarted hsold hle) rfl rfl, if_pos hlife]
  exact ⟨_, _, rfl⟩

lemma writeRoundLockedWaln_total (lamports : ℕ) (unlock : ℤ) {treasury i : ℕ}
    {entries : List InvestorAlloc} {accounts : List (Account RoundLockedWaln)} (hne : entries ≠ [])
    (hfree : lookup lockedIndex i accounts = none)
    (hrent : env.minimumBalance (RoundLockedWaln.space entries.length) ≤ treasury) :
    ∃ treasury' accounts', writeRoundLockedWaln env treasury lamports i unlock entries accounts
        = .ok (treasury', accounts') ∧
      treasury ≤ treasury' + env.minimumBalance (RoundLockedWaln.space entries.length) := by
  have hopen : openRoundAccount env treasury lamports (RoundLockedWaln.space entries.length)
      (lookup lockedIndex i accounts).isSome
        = .ok (treasury - (env.minimumBalance (RoundLockedWaln.space entries.length) - lamports),
            max lamports (env.minimumBalance (RoundLockedWaln.space entries.length))) :=
    openRoundAccount_eq_ok.mpr ⟨by omega, rfl, by simp [hfree], rfl⟩
  rw [writeRoundLockedWaln, if_neg hne, hopen, ok_bind]
  exact ⟨_, _, rfl, by omega⟩

lemma writeRoundRecord_total {treasury : ℕ} (lamports : ℕ) (record : RoundRecord)
    {accounts : List (Account RoundRecord)}
    (hfree : lookup recordIndex record.roundIndex accounts = none)
    (hrent : env.minimumBalance RoundRecord.space ≤ treasury) :
    ∃ treasury' accounts', writeRoundRecord env treasury lamports record accounts
      = .ok (treasury', accounts') := by
  have hopen : openRoundAccount env treasury lamports RoundRecord.space
      (lookup recordIndex record.roundIndex accounts).isSome
        = .ok (treasury - (env.minimumBalance RoundRecord.space - lamports),
            max lamports (env.minimumBalance RoundRecord.space)) :=
    openRoundAccount_eq_ok.mpr ⟨by omega, rfl, by simp [hfree], rfl⟩
  rw [writeRoundRecord, hopen, ok_bind]
  exact ⟨_, _, rfl⟩

/-- A forced close passes every check. -/
lemma closeRound_total (h : Inv env w) (hstarted : w.state.roundStarted = true)
    (hsold : 0 < w.state.currentRoundWaln) (he : Equipped env ctx w)
    (hunlock : ctx.now + w.state.currentRoundLockPeriod < 2 ^ 63)
    (hle : w.state.currentRoundUsdcSpent ≤ lockedUsdc w.pool.investors) :
    ∃ w', closeRound env ctx w = .ok (w', {}) := by
  obtain ⟨recordInfo, lockedInfo, rest, haccounts, hrecord, hlocked⟩ := he.accounts hsold.ne'
  have hlife : LifetimesFit w.pool.investors (closeCharges env w) :=
    he.lifetimes hsold.ne' (by rw [h.lobby.locked]; exact hle)
  obtain ⟨investors, t, hpool⟩ := closePool_ok h hstarted hsold hle hlife
  have hround := h.round hstarted
  obtain ⟨hspent, hpurchased, -, -, -, hset⟩ := closePool_settlement h.keys
    (fun _ hr => hround.closeShare_pos hsold (mem_participants.mp hr).1 (mem_participants.mp hr).2)
    hpool
  have hlength := hset.length_entries
  have htreasury : env.minimumBalance (RoundLockedWaln.space
      (sortByKey InvestorAlloc.investor t.participantData).length)
        + env.minimumBalance RoundRecord.space ≤ w.treasury := by
    rw [hlength]
    exact he.treasury hsold.ne'
  obtain ⟨treasury, accounts, hwrite, hrent⟩ := writeRoundLockedWaln_total
    lockedInfo.lamports (ctx.now + w.state.currentRoundLockPeriod)
    (hset.entries_ne_nil hround.participants_ne_nil) h.accounts_free.1
    (Nat.le_of_add_right_le htreasury)
  have hrent' : env.minimumBalance RoundRecord.space ≤ treasury := by omega
  obtain ⟨treasury', records, hwrite'⟩ := writeRoundRecord_total recordInfo.lamports
    { roundIndex := w.state.roundCount, triggeredAt := ctx.now,
      walnPurchased := t.totalWalnPurchased, usdcSpent := t.totalUsdcSpent,
      totalAatVolumeAtTrigger := t.totalAatVolumeAtTrigger,
      participantCount := (sortByKey InvestorAlloc.investor t.participantData).length,
      bump := env.bump (.RoundRecord w.state.roundCount) }
    h.accounts_free.2 hrent'
  have hlobby : t.totalUsdcSpent ≤ w.state.totalUsdcInLobby := by
    have := lockedUsdc_le_poolUsdc w.pool.investors
    have := h.lobby.lobby
    omega
  have hdust : w.state.walnDustCarryover + (w.state.currentRoundWaln - t.totalWalnPurchased)
      < 2 ^ 64 := by
    have := h.waln.vault
    have := h.waln.vault_lt
    omega
  have hperiod := hround.lock_nonneg
  have hnow := he.now_nonneg
  rw [closeRound, adminOnly, ensure_of _ he.admin, ok_bind, ensure_of _ hstarted, ok_bind,
    ensure_of _ hsold, ok_bind, haccounts]
  simp only [ensure_of _ hrecord, ensure_of _ hlocked, ok_bind, h.viable.decimals,
    walnScale_eq_ok.mpr ⟨h.viable.scale, rfl⟩, checkedAddI64_of_lt ⟨by omega, hunlock⟩, arith_some,
    hpool, hwrite, hwrite', checkedSub_of_le hpurchased.le,
    checkedAdd_of_lt (he.roundCount hsold.ne'), checkedSub_of_le hlobby, checkedAdd_of_lt hdust]
  exact ⟨_, rfl⟩

/-! ## Ending the round -/

/-- The instruction that ends the round succeeds: `cancel_round` if nothing was sold into it,
`close_round` otherwise. -/
def CanEndRound (env : Env) (ctx : Context) (w : World) : Prop :=
  if w.state.currentRoundWaln = 0 then ∃ w', cancelRound ctx w = .ok (w', {})
  else ∃ w', closeRound env ctx w = .ok (w', {})

/-- **When the admin can end the round.** -/
theorem canEndRound_iff (h : Reachable env w) (hstarted : w.state.roundStarted = true)
    (he : Equipped env ctx w) :
    CanEndRound env ctx w ↔
      w.state.currentRoundWaln = 0 ∨
        (ctx.now + w.state.currentRoundLockPeriod < 2 ^ 63 ∧
          w.state.currentRoundUsdcSpent ≤ w.state.totalUsdcLockedForRound) := by
  obtain ⟨hinv, -⟩ := reachable_inv h
  rw [hinv.lobby.locked, CanEndRound]
  split_ifs with hempty
  · exact iff_of_true (cancelRound_total hinv he.admin hstarted hempty) (.inl hempty)
  · rw [or_iff_right hempty]
    constructor
    · rintro ⟨w', hx⟩
      simp only [closeRound, bind_eq_ok] at hx
      obtain ⟨_, -, _, -, _, -, hx⟩ := hx
      split at hx
      · simp only [bind_eq_ok, arith_eq_ok, checkedAddI64_eq_some, Prod.exists] at hx
        obtain ⟨_, -, _, -, _, -, _, ⟨⟨-, hunlock⟩, rfl⟩, investors, t, hpool, -⟩ := hx
        exact ⟨hunlock, (closePool_eq_ok hpool).2.2.1⟩
      · simp at hx
    · rintro ⟨hunlock, hle⟩
      exact closeRound_total hinv hstarted (Nat.pos_of_ne_zero hempty) he hunlock hle

/-- The admin of the sample deployment, with the accounts of its first round. -/
lemma equipped_first_round {d : UInt8} (hadmin : w.state.admin = 1)
    (hcount : w.state.roundCount = 0)
    (htreasury : (sampleEnv d).minimumBalance (RoundLockedWaln.space
        (w.pool.investors.filter fun r => 0 < r.usdcLockedCurrentRound).length)
      + (sampleEnv d).minimumBalance RoundRecord.space ≤ w.treasury)
    (hlifetimes : LifetimesFit w.pool.investors (closeCharges (sampleEnv d) w)) :
    Equipped (sampleEnv d) (signedBy 1 1 (roundAccounts 0)) w :=
  { admin := hadmin
    now_nonneg := by decide
    now_lt := by decide
    accounts := fun _ => ⟨_, _, [], rfl, by rw [hcount], by rw [hcount]⟩
    treasury := fun _ => htreasury
    roundCount := fun _ => by rw [hcount]; decide
    lifetimes := fun _ _ => hlifetimes }

/-- Two billion of five are sold to locks of fifteen units for six: the round can be closed. -/
theorem canEndRound_partial_round :
    ∃ w, Reachable (sampleEnv 9) w ∧ w.state.roundStarted = true ∧
      w.state.currentRoundWaln = 2000000000 ∧
      Equipped (sampleEnv 9) (signedBy 1 1 (roundAccounts 0)) w ∧
      CanEndRound (sampleEnv 9) (signedBy 1 1 (roundAccounts 0)) w := by
  obtain ⟨w₀, hist, w, hinit, hrun, hw⟩ := exists_sample_history 9 3 5000000000
    (threeInvestors 10 20 ++ [sell 0 2000000000])
    (fun _ _ w => w.state.roundStarted = true ∧ w.state.currentRoundWaln = 2000000000 ∧
      w.state.currentRoundLockPeriod = 100 ∧
      w.state.currentRoundUsdcSpent ≤ w.state.totalUsdcLockedForRound ∧ w.state.admin = 1 ∧
      w.state.roundCount = 0 ∧
      (sampleEnv 9).minimumBalance (RoundLockedWaln.space
          (w.pool.investors.filter fun r => 0 < r.usdcLockedCurrentRound).length)
        + (sampleEnv 9).minimumBalance RoundRecord.space ≤ w.treasury ∧
      LifetimesFit w.pool.investors (closeCharges (sampleEnv 9) w))
    (by decide +kernel)
  have hreach := hrun.reachable hinit
  simp only [decide_eq_true_eq] at hw
  obtain ⟨hstarted, hwaln, hperiod, hle, hadmin, hcount, htreasury, hlifetimes⟩ := hw
  have he := equipped_first_round (d := 9) hadmin hcount htreasury hlifetimes
  refine ⟨w, hreach, hstarted, hwaln, he, (canEndRound_iff hreach hstarted he).mpr (.inr ⟨?_, hle⟩)⟩
  rw [hperiod]
  decide

/-- Four billion of five are sold for four units, and the three locks hold one unit each: the round
cannot be closed. -/
theorem round_stuck_unplaced_gap :
    ∃ w, Reachable (sampleEnv 9) w ∧ w.state.roundStarted = true ∧
      Equipped (sampleEnv 9) (signedBy 1 1 (roundAccounts 0)) w ∧
      w.state.currentRoundUsdcSpent = 4 ∧ w.state.totalUsdcLockedForRound = 3 ∧
      ¬ CanEndRound (sampleEnv 9) (signedBy 1 1 (roundAccounts 0)) w := by
  obtain ⟨w₀, hist, w, hinit, hrun, hw⟩ := exists_sample_history 9 1 5000000000
    (threeInvestors 10 2 ++ [sell 0 4000000000])
    (fun _ _ w => w.state.roundStarted = true ∧ w.state.currentRoundWaln = 4000000000 ∧
      w.state.currentRoundUsdcSpent = 4 ∧ w.state.totalUsdcLockedForRound = 3 ∧
      (closeRound (sampleEnv 9) (signedBy 1 1 (roundAccounts 0)) w).isOk = false ∧
      w.state.admin = 1 ∧ w.state.roundCount = 0 ∧
      (sampleEnv 9).minimumBalance (RoundLockedWaln.space
          (w.pool.investors.filter fun r => 0 < r.usdcLockedCurrentRound).length)
        + (sampleEnv 9).minimumBalance RoundRecord.space ≤ w.treasury ∧
      LifetimesFit w.pool.investors (closeCharges (sampleEnv 9) w))
    (by decide +kernel)
  have hreach := hrun.reachable hinit
  simp only [decide_eq_true_eq] at hw
  obtain ⟨hstarted, hwaln, hspent, hlocked, hfails, hadmin, hcount, htreasury, hlifetimes⟩ := hw
  refine ⟨w, hreach, hstarted, equipped_first_round hadmin hcount htreasury hlifetimes, hspent,
    hlocked, fun hend => ?_⟩
  rw [CanEndRound, if_neg (by omega)] at hend
  obtain ⟨w', hx⟩ := hend
  simp [hx, Except.isOk, Except.toBool] at hfails

end Floor
