import FloorProgram.Codec.Accounts

/-!
# What the accounts of the program store

The fields of the accounts are machine integers, and the rest of the development reads them as
numbers without a bound.  Nothing is lost by that: every operation that makes a number larger is
checked, so that in every reachable world every number that is stored fits its field.

* `InvestorRecord.Fits`, `ProgramState.Fits`, `World.Fits` — all that is stored fits.
* `Stored` — the part of it that has to be carried along a run; the invariant of the program gives
  the rest.
* `stored_fits` — in every world reached at times of the clock.
-/

namespace Floor

open Checked Loop Keyed Search

variable {env : Env} {w w' : World} {ctx : Context} {r : Receipt}

/-- A value of a `u64`. -/
abbrev U64 (n : ℕ) : Prop := n < 2 ^ 64

/-- A value of an `i64`. -/
abbrev I64 (z : ℤ) : Prop := -2 ^ 63 ≤ z ∧ z < 2 ^ 63

lemma u64_zero : U64 0 := by decide

lemma i64_zero : I64 0 := by decide

/-- The counters of a record that only grow, and its unlock time. -/
structure InvestorRecord.Stored (x : InvestorRecord) : Prop where
  usdcCommitted : U64 x.usdcCommitted
  walnPurchasedTotal : U64 x.walnPurchasedTotal
  usdcUnlockTs : I64 x.usdcUnlockTs

/-- The fields of the state that stay behind when a round ends, and those only the admin writes. -/
structure ProgramState.Stored (s : ProgramState) : Prop where
  roundCount : U64 s.roundCount
  usdcWithdrawLockSeconds : I64 s.usdcWithdrawLockSeconds
  currentRoundFloorPrice : U64 s.currentRoundFloorPrice
  currentRoundSizeWaln : U64 s.currentRoundSizeWaln
  currentRoundLockPeriod : I64 s.currentRoundLockPeriod
  currentRoundUsdcSpent : U64 s.currentRoundUsdcSpent

/-- What has to be carried along a run. -/
structure Stored (w : World) : Prop where
  state : w.state.Stored
  records : ∀ x ∈ w.pool.investors, x.Stored
  roundRecords : ∀ a ∈ w.roundRecords, a.data.Fits
  roundLockedWaln : ∀ a ∈ w.roundLockedWaln, a.data.HeaderFits

/-! ## The counters of a settlement -/

/-- The sums of a settlement, which its record keeps. -/
structure Summed (totalWalnPurchased totalUsdcSpent totalAatVolumeAtTrigger : ℕ) : Prop where
  waln : U64 totalWalnPurchased
  usdc : U64 totalUsdcSpent
  volume : U64 totalAatVolumeAtTrigger

lemma summed_zero : Summed 0 0 0 := ⟨u64_zero, u64_zero, u64_zero⟩

/-- The sums of the settlement of a full round fit. -/
def SettleTotals.Stored (t : SettleTotals) : Prop :=
  Summed t.totalWalnPurchased t.totalUsdcSpent t.totalAatVolumeAtTrigger

/-- The sums of a forced close fit. -/
def CloseTotals.Stored (t : CloseTotals) : Prop :=
  Summed t.totalWalnPurchased t.totalUsdcSpent t.totalAatVolumeAtTrigger

/-- Every number a step of a settlement writes was checked. -/
lemma settleRecord_stored {scale price : ℕ} {t t' : SettleTotals} {x x' : InvestorRecord}
    (h : settleRecord scale price t x = .ok (x', t')) :
    (x.Stored → x'.Stored) ∧ (t.Stored → t'.Stored) := by
  unfold settleRecord at h
  split_ifs at h with hlock
  · obtain ⟨rfl, rfl⟩ := Prod.mk.inj (Except.ok.inj h)
    exact ⟨id, id⟩
  · simp only [bind_eq_ok, arith_eq_ok, checkedAdd_eq_some, pure_eq_ok, Prod.mk.injEq] at h
    obtain ⟨_, -, _, ⟨hvolume, rfl⟩, _, -, _, ⟨hcommitted, rfl⟩, _, ⟨hpurchased, rfl⟩, _,
      ⟨husdc, rfl⟩, _, ⟨hwaln, rfl⟩, rfl, rfl⟩ := h
    exact ⟨fun hx => ⟨hcommitted, hpurchased, hx.usdcUnlockTs⟩, fun _ => ⟨hwaln, husdc, hvolume⟩⟩

/-- Every number a step of a forced close writes was checked. -/
lemma closeRecord_stored {c : CloseTerms} {t t' : CloseTotals} {x x' : InvestorRecord}
    (h : closeRecord c t x = .ok (x', t')) :
    (x.Stored → x'.Stored) ∧ (t.Stored → t'.Stored) := by
  unfold closeRecord at h
  split_ifs at h with hlock
  · obtain ⟨rfl, rfl⟩ := Prod.mk.inj (Except.ok.inj h)
    exact ⟨id, id⟩
  · simp only [bind_eq_ok, Prod.exists, arith_eq_ok, checkedAdd_eq_some, pure_eq_ok,
      Prod.mk.injEq] at h
    obtain ⟨_, -, _, -, _, _, -, _, -, _, -, _, ⟨hcommitted, rfl⟩, _, ⟨hpurchased, rfl⟩, _,
      ⟨husdc, rfl⟩, _, ⟨hwaln, rfl⟩, _, ⟨hvolume, rfl⟩, rfl, rfl⟩ := h
    exact ⟨fun hx => ⟨hcommitted, hpurchased, hx.usdcUnlockTs⟩, fun _ => ⟨hwaln, husdc, hvolume⟩⟩

/-- A record keeps to its types. -/
def KeepsStored (x x' : InvestorRecord) : Prop := x.Stored → x'.Stored

/-- What a loop over the pool keeps of every record. -/
lemma stored_of_forall₂ {l l' : List InvestorRecord} (h : List.Forall₂ KeepsStored l l')
    (hl : ∀ x ∈ l, x.Stored) : ∀ x ∈ l', x.Stored := by
  intro x' hx'
  obtain ⟨x, hx, himp⟩ := exists_of_forall₂_right h hx'
  exact himp (hl x hx)

/-- The bonus is added with a check. -/
lemma creditWinner_stored {winner : Pubkey} {dust : ℕ} {l l' : List InvestorRecord}
    (h : creditWinner winner dust l = .ok l') (hl : ∀ x ∈ l, x.Stored) : ∀ x ∈ l', x.Stored := by
  unfold creditWinner at h
  split at h
  · obtain rfl := Except.ok.inj h
    exact hl
  · rename_i x hx
    simp only [bind_eq_ok, arith_eq_ok, checkedAdd_eq_some, pure_eq_ok] at h
    obtain ⟨_, ⟨hpurchased, rfl⟩, rfl⟩ := h
    intro y hy
    rcases mem_modifyFirst hx hy with hy | rfl
    · exact hl y hy
    · have hstored := hl x (lookup_mem hx)
      exact ⟨hstored.usdcCommitted, hpurchased, hstored.usdcUnlockTs⟩

/-- So are the totals it goes into. -/
lemma awardDust_stored {now : ℤ} {dust : ℕ} {l l' : List InvestorRecord} {t t' : SettleTotals}
    (h : awardDust now dust l t = .ok (l', t')) (hl : ∀ x ∈ l, x.Stored) (ht : t.Stored) :
    (∀ x ∈ l', x.Stored) ∧ t'.Stored := by
  unfold awardDust at h
  split_ifs at h
  · dsimp only at h
    split at h
    · cases h
    · simp only [bind_eq_ok, arith_eq_ok, checkedAdd_eq_some, pure_eq_ok, Prod.mk.injEq] at h
      obtain ⟨_, -, _, ⟨hwaln, rfl⟩, _, hcredit, rfl, rfl⟩ := h
      exact ⟨creditWinner_stored hcredit hl, hwaln, ht.usdc, ht.volume⟩
  · obtain ⟨rfl, rfl⟩ := Prod.mk.inj (Except.ok.inj h)
    exact ⟨hl, ht⟩

/-- After a settlement the pool can be stored. -/
lemma settlePool_stored {scale price dust : ℕ} {now : ℤ} {l l' : List InvestorRecord}
    {t : SettleTotals} (h : settlePool scale price now dust l = .ok (l', t))
    (hl : ∀ x ∈ l, x.Stored) : (∀ x ∈ l', x.Stored) ∧ t.Stored := by
  simp only [settlePool, bind_eq_ok, Prod.exists, committed_eq_ok] at h
  obtain ⟨charged, t₀, ⟨hcharged, htotals⟩, haward⟩ := h
  have hloop : forMut (settleRecord scale price) SettleTotals.zero l = (charged, .ok t₀) :=
    Prod.ext hcharged htotals
  have hkept := forall₂_of_forMut (R := KeepsStored)
      (fun _ _ _ _ hx => (settleRecord_stored hx).1) hloop
  have hzero : SettleTotals.zero.Stored := summed_zero
  have hsums : t₀.Stored :=
    forMut_keeps (fun _ _ _ _ hs hx => (settleRecord_stored hx).2 hs) hzero hloop
  exact awardDust_stored haward (stored_of_forall₂ hkept hl) hsums

/-- After a forced close the pool can be stored. -/
lemma closePool_stored {scale price waln paid : ℕ} {l l' : List InvestorRecord} {t : CloseTotals}
    (h : closePool scale price waln paid l = .ok (l', t)) (hl : ∀ x ∈ l, x.Stored) :
    (∀ x ∈ l', x.Stored) ∧ t.Stored := by
  simp only [closePool, bind_eq_ok, Prod.exists, committed_eq_ok, pure_eq_ok, Prod.mk.injEq] at h
  obtain ⟨sums, -, _, -, _, -, _, -, _, -, rest, -, closed, t₀, ⟨hclosed, htotals⟩, _, -, _, -, rfl,
    rfl⟩ := h
  have hloop := Prod.ext (y := (closed, .ok t₀)) hclosed htotals
  have hkept := forall₂_of_forMut (R := KeepsStored)
      (fun _ _ _ _ hx => (closeRecord_stored hx).1) hloop
  refine ⟨stored_of_forall₂ hkept hl, ?_⟩
  refine forMut_keeps (Q := CloseTotals.Stored) (fun _ _ _ _ hs hx => (closeRecord_stored hx).2 hs)
    ?_ hloop
  exact summed_zero

/-! ## The phases of a round -/

/-- What a settlement counts, as the code checks it. -/
structure Counted (w w' : World) : Prop where
  records : ∀ x ∈ w'.pool.investors, x.Stored
  roundCount : U64 w'.state.roundCount
  sums : ∀ a ∈ w'.roundRecords, a ∈ w.roundRecords ∨
    Summed a.data.walnPurchased a.data.usdcSpent a.data.totalAatVolumeAtTrigger

/-- A forced close counts the round with a check. -/
lemma closeRound_counted (hx : closeRound env ctx w = .ok (w', r))
    (hl : ∀ x ∈ w.pool.investors, x.Stored) : Counted w w' := by
  simp only [closeRound, bind_eq_ok, ensure_eq_ok] at hx
  obtain ⟨_, -, _, -, _, -, hx⟩ := hx
  split at hx
  · simp only [bind_eq_ok, arith_eq_ok, checkedAdd_eq_some, Prod.exists, pure_eq_ok,
      Prod.mk.injEq] at hx
    obtain ⟨_, -, _, -, _, -, _, -, _, _, hpool, _, _, -, _, _, hrecords, _, -, _, ⟨hcount, rfl⟩, _,
      -, _, -, rfl, -⟩ := hx
    obtain ⟨hstored, hsums⟩ := closePool_stored hpool hl
    obtain ⟨_, rfl⟩ := writeRoundRecord_ok hrecords
    refine ⟨hstored, hcount, fun a ha => ?_⟩
    rcases List.mem_append.mp ha with ha | ha
    · exact .inl ha
    · rw [List.mem_singleton.mp ha]
      exact .inr hsums
  · cases hx

/-- So does a sell that fills it. -/
lemma settleWorld_counted {d price : ℕ} {remaining : List AccountInfo}
    {allocated : List InvestorAllocated} {closed : RoundClosed}
    (hx : settleWorld env ctx d price remaining w = .ok (w', allocated, closed))
    (hl : ∀ x ∈ w.pool.investors, x.Stored) : Counted w w' := by
  unfold settleWorld at hx
  split at hx
  · simp only [bind_eq_ok, arith_eq_ok, checkedAdd_eq_some, Prod.exists, pure_eq_ok,
      Prod.mk.injEq] at hx
    obtain ⟨_, -, _, -, _, -, _, -, _, _, hpool, _, _, -, _, -, _, _, hrecords, _, ⟨hcount, rfl⟩, _,
      -, _, -, rfl, -, -⟩ := hx
    obtain ⟨hstored, hsums⟩ := settlePool_stored hpool hl
    obtain ⟨_, rfl⟩ := writeRoundRecord_ok hrecords
    refine ⟨hstored, hcount, fun a ha => ?_⟩
    rcases List.mem_append.mp ha with ha | ha
    · exact .inl ha
    · rw [List.mem_singleton.mp ha]
      exact .inr hsums
  · cases hx

/-- Moving USDC inside records keeps the lifetime totals. -/
lemma stored_of_moved {l l' : List InvestorRecord} (h : List.Forall₂ Moved l l')
    (hl : ∀ x ∈ l, x.Stored) : ∀ x ∈ l', x.Stored := by
  refine stored_of_forall₂ (h.imp fun x x' hm hx => ?_) hl
  exact ⟨hm.usdcCommitted ▸ hx.usdcCommitted, hm.walnPurchasedTotal ▸ hx.walnPurchasedTotal,
    hm.usdcUnlockTs ▸ hx.usdcUnlockTs⟩

/-- The snapshot of a round is taken from the live parameters. -/
lemma Begun.stored (h : Inv env w) (hidle : w.state.roundStarted = false) (hs : Stored w)
    (hb : Begun env w w') : Stored w' := by
  have hkeeps := hb.keeps h hidle
  obtain ⟨_, _, _, -, rfl⟩ := hb
  have hv := h.viable
  refine ⟨⟨hs.state.roundCount, hs.state.usdcWithdrawLockSeconds, hv.price_lt, hv.size_lt, ?_,
    u64_zero⟩, stored_of_moved hkeeps.pool hs.records, hs.roundRecords, hs.roundLockedWaln⟩
  have hnonneg := hv.lock_nonneg
  exact ⟨by simp only [ProgramState.snapshot]; omega, hv.lock_lt⟩

lemma Opened.stored (h : Inv env w) (hs : Stored w) (ho : Opened env w w') : Stored w' := by
  rcases ho with ⟨-, rfl⟩ | ⟨hidle, hb⟩
  · exact hs
  · exact hb.stored h hidle hs

/-- What the sellers were paid is counted by a checked addition. -/
lemma sellIntoRound_stored {wm um : Pubkey} {maxWaln usdcOut : ℕ} {plan : SalePlan}
    {remaining : List AccountInfo} (h : Inv env w) (hs : Stored w)
    (hx : sellIntoRound env ctx wm um maxWaln w = .ok (plan, remaining, usdcOut, w')) :
    Stored w' := by
  obtain ⟨w₁, hopened, hpaid, -⟩ := sellIntoRound_ok h hx
  have hs₁ := hopened.stored h hs
  have hspent : U64 w'.state.currentRoundUsdcSpent := by
    simp only [sellIntoRound, paySeller, bind_eq_ok, arith_eq_ok, checkedAdd_eq_some, Prod.exists,
      pure_eq_ok, Prod.mk.injEq] at hx
    obtain ⟨_, -, _, _, -, _, _, _, ⟨_, -, _, -, _, -, _, -, _, -, _, -, _, ⟨hspent, rfl⟩, _, -, -,
      -, rfl⟩, -, -, -, rfl⟩ := hx
    exact hspent
  have hw := hpaid.world
  subst hw
  exact ⟨⟨hs₁.state.roundCount, hs₁.state.usdcWithdrawLockSeconds,
    hs₁.state.currentRoundFloorPrice, hs₁.state.currentRoundSizeWaln,
    hs₁.state.currentRoundLockPeriod, hspent⟩, hs₁.records, hs₁.roundRecords, hs₁.roundLockedWaln⟩

/-- A settlement at a time of the clock. -/
lemma Settled.stored {now : ℤ} {entries : List InvestorAlloc} {usdc dust : ℕ} (h : Inv env w)
    (hstarted : w.state.roundStarted = true) (hnow : I64 now) (hbump : ∀ k, env.bump k < 2 ^ 8)
    (hs : Stored w) (hsettled : Settled env now entries usdc dust w w') (hc : Counted w w') :
    Stored w' := by
  have hcount := hs.state.roundCount
  have hround := h.round hstarted
  refine ⟨?_, hc.records, fun a ha => ?_, fun a ha => ?_⟩
  · have hcounted := hc.roundCount
    rw [hsettled.state] at hcounted ⊢
    exact ⟨hcounted, hs.state.usdcWithdrawLockSeconds, hs.state.currentRoundFloorPrice,
      hs.state.currentRoundSizeWaln, hs.state.currentRoundLockPeriod, u64_zero⟩
  · rcases hc.sums a ha with hold | hsums
    · exact hs.roundRecords a hold
    obtain ⟨_, _, hrecords⟩ := hsettled.record
    rw [hrecords, List.mem_append, List.mem_singleton] at ha
    rcases ha with ha | rfl
    · exact hs.roundRecords a ha
    · have hentries := hsettled.settlement.entries_le.trans h.count_le
      rw [MAX_INVESTORS] at hentries
      exact ⟨hcount, hnow, hsums.waln, hsums.usdc, hsums.volume, by dsimp only; omega, hbump _⟩
  · obtain ⟨_, haccounts⟩ := hsettled.account
    rw [haccounts, List.mem_append, List.mem_singleton] at ha
    rcases ha with ha | rfl
    · exact hs.roundLockedWaln a ha
    · have hnonneg := hround.lock_nonneg
      have hlow := hnow.1
      exact ⟨hcount, hbump _, ⟨by dsimp only; omega, hsettled.unlock⟩⟩

/-- The sell that fills a round. -/
lemma sellWaln_stored {wm um : Pubkey} {maxWaln : ℕ} (hw : Reachable env w) (hnow : I64 ctx.now)
    (hbump : ∀ k, env.bump k < 2 ^ 8) (hs : Stored w)
    (hx : sellWaln env ctx wm um maxWaln w = .ok (w', r)) : Stored w' := by
  obtain ⟨hinv, hopen⟩ := reachable_inv hw
  obtain ⟨plan, remaining, usdcOut, sold, hsell, hx⟩ := sellWaln_cases hx
  have hsold := sellIntoRound_stored hinv hs hsell
  obtain ⟨hinvSold, hstarted, -⟩ := sellIntoRound_sold hinv hopen hsell
  rcases hx with ⟨-, rfl, -⟩ | ⟨-, settled, allocated, closed, hsettle, hauto, -⟩
  · exact hsold
  · have hc := settleWorld_counted hsettle hsold.records
    obtain ⟨⟨_, hsettled⟩, hdecimals, hinvSettled, hidle⟩ := hw.settled hsell hsettle
    have hstored : Stored settled.unlockedForRound :=
      hsettled.stored hinvSold hstarted hnow hbump hsold ⟨hc.records, hc.roundCount, hc.sums⟩
    rw [hdecimals] at hauto
    rcases autoStart_ok hauto with hbegun | ⟨rfl, -⟩
    · exact hbegun.stored hinvSettled hidle hstored
    · exact hstored

/-! ## Every instruction -/

/-- The pool with one record rewritten. -/
lemma stored_updateInvestor {k : Pubkey} {f : InvestorRecord → InvestorRecord} (hs : Stored w)
    (hf : ∀ x, x.Stored → (f x).Stored) : ∀ y ∈ (w.updateInvestor k f).investors, y.Stored := by
  intro y hy
  cases hfound : lookup byInvestor k w.pool.investors with
  | none =>
      rw [World.updateInvestor, modifyFirst_of_none hfound] at hy
      exact hs.records y hy
  | some x =>
      rcases mem_modifyFirst hfound hy with hy | rfl
      · exact hs.records y hy
      · exact hf x (hs.records x (lookup_mem hfound))

/-- The unlock time of a deposit is a checked sum. -/
lemma extendUnlock_i64 {now lock ts ts' : ℤ} (h : extendUnlock now lock ts = .ok ts')
    (hts : I64 ts) : I64 ts' := by
  unfold extendUnlock at h
  split_ifs at h
  · simp only [bind_eq_ok, arith_eq_ok, checkedAddI64_eq_some, pure_eq_ok] at h
    obtain ⟨_, ⟨hnew, rfl⟩, rfl⟩ := h
    rcases max_choice ts (now + lock) with hmax | hmax <;> rw [hmax]
    · exact hts
    · exact hnew
  · obtain rfl := Except.ok.inj h
    exact hts

/-- A setting of the withdraw lock is an argument of the instruction. -/
lemma exec_withdrawLock {a : Instruction} (ha : a.configures = true)
    (hx : exec env ctx a w = .ok (w', r)) (hs : I64 w.state.usdcWithdrawLockSeconds) :
    I64 w'.state.usdcWithdrawLockSeconds := by
  cases a with
  | SetUsdcWithdrawLock t =>
      rw [exec, setUsdcWithdrawLock] at hx
      obtain ⟨-, -, rfl, -⟩ := adminSet_eq_ok.mp hx
      exact ⟨t.le_toInt, t.toInt_lt⟩
  | AcceptAuthority =>
      simp only [exec, acceptAuthority, bind_eq_ok, pure_eq_ok, Prod.mk.injEq] at hx
      obtain ⟨_, -, _, -, rfl, -⟩ := hx
      exact hs
  | SetFloorPrice | SetRoundSize | SetLockPeriod | SetSellPaused | SetFrozen | TransferAuthority =>
      simp only [exec, setFloorPrice, setRoundSize, setLockPeriod, setSellPaused, setFrozen,
        transferAuthority, adminSet_eq_ok] at hx
      obtain ⟨-, -, rfl, -⟩ := hx
      exact hs
  | _ => cases ha

/-- **What is stored still fits** after a transaction at a time of the clock. -/
lemma exec_stored {a : Instruction} (hw : Reachable env w) (hnow : I64 ctx.now)
    (hbump : ∀ k, env.bump k < 2 ^ 8) (hs : Stored w) (hx : exec env ctx a w = .ok (w', r)) :
    Stored w' := by
  obtain ⟨hinv, hopen⟩ := reachable_inv hw
  have hst := hs.state
  cases exec_effect hinv hopen hx with
  | Configure hi =>
      exact ⟨⟨hst.roundCount, exec_withdrawLock hi hx hst.usdcWithdrawLockSeconds,
        hst.currentRoundFloorPrice, hst.currentRoundSizeWaln, hst.currentRoundLockPeriod,
        hst.currentRoundUsdcSpent⟩, hs.records, hs.roundRecords, hs.roundLockedWaln⟩
  | ManageRent _ hrecords =>
      exact ⟨hst, hs.records, fun a ha => hs.roundRecords a (hrecords.subset ha),
        hs.roundLockedWaln⟩
  | @SetUnlock k ts =>
      refine ⟨hst, stored_updateInvestor hs fun x h => ?_, hs.roundRecords, hs.roundLockedWaln⟩
      exact ⟨h.usdcCommitted, h.walnPurchasedTotal, ts.le_toInt, ts.toInt_lt⟩
  | Deposit _ hfound hts =>
      refine ⟨{ hst with }, fun x hx => ?_, hs.roundRecords, hs.roundLockedWaln⟩
      rcases mem_modifyFirst hfound hx with hx | rfl
      · exact hs.records x hx
      · have h := hs.records _ (lookup_mem hfound)
        exact ⟨h.usdcCommitted, h.walnPurchasedTotal, extendUnlock_i64 hts h.usdcUnlockTs⟩
  | Join _ _ _ hts =>
      refine ⟨{ hst with }, fun x hx => ?_, hs.roundRecords, hs.roundLockedWaln⟩
      rcases List.mem_append.mp hx with hx | hx
      · exact hs.records x hx
      · rw [List.mem_singleton.mp hx]
        exact ⟨u64_zero, u64_zero, extendUnlock_i64 hts i64_zero⟩
  | Withdraw =>
      refine ⟨{ hst with }, stored_updateInvestor hs fun x h => ?_, hs.roundRecords,
        hs.roundLockedWaln⟩
      exact ⟨h.usdcCommitted, h.walnPurchasedTotal, h.usdcUnlockTs⟩
  | Remove hi =>
      exact ⟨{ hst with }, fun x hx => hs.records x (mem_of_mem_swapRemove hi hx), hs.roundRecords,
        hs.roundLockedWaln⟩
  | Cancel =>
      refine ⟨⟨hst.roundCount, hst.usdcWithdrawLockSeconds, hst.currentRoundFloorPrice,
        hst.currentRoundSizeWaln, hst.currentRoundLockPeriod, u64_zero⟩, fun x hx => ?_,
        hs.roundRecords, hs.roundLockedWaln⟩
      obtain ⟨y, hy, rfl⟩ := List.mem_map.mp hx
      have h := hs.records y hy
      exact ⟨h.usdcCommitted, h.walnPurchasedTotal, h.usdcUnlockTs⟩
  | Close hstarted _ hsettled =>
      exact hsettled.stored hinv hstarted hnow hbump hs (closeRound_counted hx hs.records)
  | Sell => exact sellWaln_stored hw hnow hbump hs hx
  | SellFull => exact sellWaln_stored hw hnow hbump hs hx
  | Claim =>
      obtain ⟨account, _, hc⟩ := (exec_effect hinv hopen hx).claimed hinv
      refine ⟨hst, hs.records, hs.roundRecords, fun b hb => ?_⟩
      rcases hc.accounts with ⟨-, haccounts⟩ | ⟨-, haccounts⟩ <;> rw [haccounts] at hb
      · exact hs.roundLockedWaln b (List.mem_filter.mp hb).1
      · rcases mem_modifyFirst hc.found hb with hb | rfl
        · exact hs.roundLockedWaln b hb
        · have h := hs.roundLockedWaln account (lookup_mem hc.found)
          exact ⟨h.roundIndex, h.bump, h.unlock⟩
  | Mint => exact ⟨{ hst with }, hs.records, hs.roundRecords, hs.roundLockedWaln⟩
  | UpdateVolume =>
      refine ⟨{ hst with }, stored_updateInvestor hs fun x h => ?_, hs.roundRecords,
        hs.roundLockedWaln⟩
      exact ⟨h.usdcCommitted, h.walnPurchasedTotal, h.usdcUnlockTs⟩

/-- A fresh deployment can be stored. -/
lemma Initial.stored (h : Initial env w) : Stored w := by
  obtain ⟨ctx, usdcMint, walnMint, price, size, lock, h⟩ := h
  simp only [initializeHandler, bind_eq_ok, pure_eq_ok] at h
  obtain ⟨_, -, _, -, _, -, _, -, _, -, _, -, rfl⟩ := h
  exact ⟨⟨u64_zero, i64_zero, price.toNat_lt, size.toNat_lt, ⟨lock.le_toInt, lock.toInt_lt⟩,
    u64_zero⟩, by simp, by simp, by simp⟩

/-- Every transaction of a run was made at a time of the clock. -/
def AtClockTimes (h : List (Transition.Entry World Tx)) : Prop := ∀ e ∈ h, I64 e.label.ctx.now

/-- What has to be carried along is carried along every run. -/
lemma History.stored {w₀ : World} {h : List (Transition.Entry World Tx)} (hw₀ : Initial env w₀)
    (hh : History env w₀ h w) (hbump : ∀ k, env.bump k < 2 ^ 8) (hnow : AtClockTimes h) :
    Stored w := by
  refine Transition.Trace.invariant (P := fun h w => AtClockTimes h → Stored w)
    (fun _ => hw₀.stored) ?_ hh hnow
  intro h w tx w' hh ih hstep hnow
  have hlast := hnow ⟨w, tx, w'⟩ List.mem_cons_self
  exact exec_stored (History.reachable hh hw₀) hlast hbump
    (ih fun e he => hnow e (List.mem_cons_of_mem _ he)) hstep

/-! ## All of it -/

/-- The fields of a record fit their types. -/
structure InvestorRecord.Fits (x : InvestorRecord) : Prop where
  usdcDeposited : U64 x.usdcDeposited
  usdcLockedCurrentRound : U64 x.usdcLockedCurrentRound
  usdcCommitted : U64 x.usdcCommitted
  walnPurchasedTotal : U64 x.walnPurchasedTotal
  aatVolume : U64 x.aatVolume
  usdcUnlockTs : I64 x.usdcUnlockTs

/-- The fields of the state fit their types. -/
structure ProgramState.Fits (s : ProgramState) : Prop where
  floorPriceUsdc : U64 s.floorPriceUsdc
  roundSizeWaln : U64 s.roundSizeWaln
  currentRoundWaln : U64 s.currentRoundWaln
  totalUsdcInLobby : U64 s.totalUsdcInLobby
  roundCount : U64 s.roundCount
  lockPeriodSeconds : I64 s.lockPeriodSeconds
  usdcWithdrawLockSeconds : I64 s.usdcWithdrawLockSeconds
  currentRoundFloorPrice : U64 s.currentRoundFloorPrice
  currentRoundSizeWaln : U64 s.currentRoundSizeWaln
  currentRoundLockPeriod : I64 s.currentRoundLockPeriod
  currentRoundUsdcSpent : U64 s.currentRoundUsdcSpent
  totalAatVolume : U64 s.totalAatVolume
  walnDustCarryover : U64 s.walnDustCarryover
  totalUsdcLockedForRound : U64 s.totalUsdcLockedForRound
  walnDecimals : s.walnDecimals < 2 ^ 8

/-- All that is stored fits. -/
structure World.Fits (w : World) : Prop where
  state : w.state.Fits
  count : w.pool.count < 2 ^ 32
  records : ∀ x ∈ w.pool.investors, x.Fits
  roundRecords : ∀ a ∈ w.roundRecords, a.data.Fits
  roundLockedWaln : ∀ a ∈ w.roundLockedWaln, a.data.Fits
  volumes : ∀ n ∈ w.aatNfts, U64 n.aatVolume

/-- The volume of an NFT fits, as it is part of the total. -/
lemma Inv.aatVolume_lt (h : Inv env w) : ∀ n ∈ w.aatNfts, U64 n.aatVolume := by
  intro n hn
  have hle : n.aatVolume ≤ (w.aatNfts.map AatNft.aatVolume).sum :=
    List.single_le_sum (fun _ _ => Nat.zero_le _) _ (List.mem_map_of_mem hn)
  have htotal := h.aat.total
  have hbound := h.aat.total_le
  rw [MAX_TOTAL_AAT_VOLUME] at hbound
  omega

/-- A stored record fits its fields. -/
lemma Stored.record_fits (hs : Stored w) (h : Inv env w) {x : InvestorRecord}
    (hx : x ∈ w.pool.investors) : x.Fits := by
  have hposition := position_le_poolUsdc hx
  have hlobby := h.lobby.lobby_lt
  rw [h.lobby.lobby] at hlobby
  rw [InvestorRecord.position] at hposition
  obtain ⟨n, hn, -, hvolume⟩ := h.aat.matched x hx
  have hstored := hs.records x hx
  exact ⟨by omega, by omega, hstored.usdcCommitted, hstored.walnPurchasedTotal,
    hvolume ▸ h.aatVolume_lt n hn, hstored.usdcUnlockTs⟩

/-- The state fits its fields. -/
lemma Stored.state_fits (hs : Stored w) (h : Inv env w) : w.state.Fits := by
  have hv := h.viable
  have hnonneg := hv.lock_nonneg
  have hvault := h.waln.vault
  have hvault_lt := h.waln.vault_lt
  have hlobby := h.lobby.lobby_lt
  have hlocked := h.lobby.locked
  have hle := lockedUsdc_le_poolUsdc w.pool.investors
  rw [← h.lobby.lobby, ← hlocked] at hle
  have hvolume := h.aat.total_le
  rw [MAX_TOTAL_AAT_VOLUME] at hvolume
  have hdecimals : w.state.walnDecimals < 2 ^ 8 := by
    rw [hv.decimals]
    exact UInt8.toNat_lt _
  exact ⟨hv.price_lt, hv.size_lt, by omega, hlobby, hs.state.roundCount, ⟨by omega, hv.lock_lt⟩,
    hs.state.usdcWithdrawLockSeconds, hs.state.currentRoundFloorPrice,
    hs.state.currentRoundSizeWaln, hs.state.currentRoundLockPeriod,
    hs.state.currentRoundUsdcSpent, by omega, by omega, by omega, hdecimals⟩

/-- **All that is stored fits**, in every run at times of the clock. -/
lemma History.fits {w₀ : World} {h : List (Transition.Entry World Tx)} (hw₀ : Initial env w₀)
    (hh : History env w₀ h w) (hbump : ∀ k, env.bump k < 2 ^ 8) (hnow : AtClockTimes h) :
    w.Fits := by
  have hw := History.reachable hh hw₀
  obtain ⟨hinv, -⟩ := reachable_inv hw
  have hs := History.stored hw₀ hh hbump hnow
  have hcount := hinv.count_le
  rw [MAX_INVESTORS] at hcount
  refine ⟨hs.state_fits hinv, ?_, fun x hx => hs.record_fits hinv hx, hs.roundRecords,
    fun a ha => Reachable.fits hw ha (hs.roundLockedWaln a ha), hinv.aatVolume_lt⟩
  rw [InvestorPool.count]
  omega

end Floor
