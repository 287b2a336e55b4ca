import FloorProgram.Settling

/-!
# What a full round hands out

The sell that fills a round charges every participant its lock and allocates the wALN the lock buys,
rounded down.  What rounding leaves is carried over, and what earlier rounds carried over goes to
one participant of this one.

So the carryover is made anew in every round (`carryover_lt`): it is what the price of the
whole round, the locks and the allocations lose by rounding, and does not depend on what was carried
over before.
-/

namespace Floor

open Checked Loop Keyed Search ProRata

variable {env : Env} {w w' sold : World} {ctx : Context} {k : Pubkey}

/-! ## The figures of one investor -/

/-- The USDC an investor has spent so far. -/
def committedOf (k : Pubkey) (investors : List InvestorRecord) : ℕ :=
  valueOf byInvestor InvestorRecord.usdcCommitted k investors

/-- The wALN an investor has bought so far. -/
def purchasedOf (k : Pubkey) (investors : List InvestorRecord) : ℕ :=
  valueOf byInvestor InvestorRecord.walnPurchasedTotal k investors

/-- The USDC an investor has locked. -/
def lockOf (k : Pubkey) (investors : List InvestorRecord) : ℕ :=
  valueOf byInvestor InvestorRecord.usdcLockedCurrentRound k investors

section Figures

variable {investors investors' : List InvestorRecord}

lemma committedOf_of_moved (h : List.Forall₂ Moved investors investors') :
    committedOf k investors' = committedOf k investors :=
  valueOf_of_forall₂ h (fun _ _ hm => hm.investor) fun _ _ hm => hm.usdcCommitted

lemma purchasedOf_of_moved (h : List.Forall₂ Moved investors investors') :
    purchasedOf k investors' = purchasedOf k investors :=
  valueOf_of_forall₂ h (fun _ _ hm => hm.investor) fun _ _ hm => hm.walnPurchasedTotal

/-- A settlement adds the entry of an investor to what it has bought. -/
lemma Settlement.purchasedOf {entries : List InvestorAlloc} {usdc : ℕ}
    (h : Settlement investors investors' entries usdc) :
    purchasedOf k investors' = Floor.purchasedOf k investors + amountOf entries k := by
  rcases lookup_of_forall₂ (k := k) h.records fun _ _ hr => hr.investor with
    ⟨hnone, hnone'⟩ | ⟨r, r', hr, hr', hsettled⟩
  · have hentries : ∀ a ∈ entries, a.investor ≠ k := by
      intro a ha hk
      have hmem := h.keys.mem_iff.mp (List.mem_map_of_mem ha)
      obtain ⟨x, hx, hxk⟩ := List.mem_map.mp hmem
      exact lookup_eq_none.mp hnone x (mem_participants.mp hx).1 (hxk.trans hk)
    simp [Floor.purchasedOf, valueOf, hnone, hnone', amountOf_of_forall_ne hentries]
  · have hk : r.investor = k := lookup_key hr
    simp [Floor.purchasedOf, valueOf, hr, hr', hsettled.walnPurchasedTotal, hk]

end Figures

lemma Settles.purchasedOf {now : ℤ} {mid settled : World} {entries : List InvestorAlloc}
    {usdc dust : ℕ} (hs : Settles env now w mid settled w' entries usdc dust) :
    purchasedOf k w'.pool.investors
      = Floor.purchasedOf k w.pool.investors + amountOf entries k := by
  rw [purchasedOf_of_moved hs.after.pool, hs.settle.settlement.purchasedOf,
    purchasedOf_of_moved hs.before.pool]

/-- A full round charges an investor its lock. -/
lemma committedOf_fullPool (env : Env) (now : ℤ) (w : World) :
    committedOf k (w.fullPool env now)
      = committedOf k w.pool.investors + lockOf k w.pool.investors := by
  refine (valueOf_map ?_).trans (valueOf_add _)
  intro r
  rfl

/-- A transaction that settles a full round charges an investor its lock. -/
lemma Settles.committedOf {now : ℤ} {settled : World} {entries : List InvestorAlloc}
    {usdc dust : ℕ} (hs : Settles env now w sold settled w' entries usdc dust)
    (hpool : settled.pool.investors = sold.fullPool env now) :
    committedOf k w'.pool.investors
      = Floor.committedOf k w.pool.investors + lockOf k sold.pool.investors := by
  rw [committedOf_of_moved hs.after.pool, hpool, committedOf_fullPool,
    committedOf_of_moved hs.before.pool]

/-! ## The carryover -/

/-- The locks of the participants are all the locks. -/
lemma sum_lock_participants (investors : List InvestorRecord) :
    ((participants investors).map InvestorRecord.usdcLockedCurrentRound).sum
      = lockedUsdc investors :=
  sum_participants _ fun _ hr => hr

/-- **What the allocations leave of a round.**  The price of the round loses less than a unit of
USDC to rounding, and each allocation less than a unit of wALN. -/
lemma carryover_lt {s p size dust : ℕ} {investors : List InvestorRecord} (hs : 0 < s) (hp : 0 < p)
    (hsome : participants investors ≠ []) (hle : lockedUsdc investors ≤ size * p / s)
    (hdust : (investors.map (baseWaln s p)).sum + dust = size) :
    dust * p < s * (1 + size * p / s - lockedUsdc investors)
      + (participants investors).length * p := by
  have hcap := Nat.lt_mul_div_succ (size * p) hs
  have hbase := sum_lt_sum_div_mul (participants investors)
    (fun r => r.usdcLockedCurrentRound * s) hp
  have hwaln : ((participants investors).map fun r => r.usdcLockedCurrentRound * s / p).sum
      = (investors.map (baseWaln s p)).sum := sum_baseWaln_participants s p investors
  rw [List.sum_map_mul_right, sum_lock_participants, hwaln] at hbase
  have hn := List.length_pos_iff.mpr hsome
  set n := (participants investors).length
  set base := (investors.map (baseWaln s p)).sum
  obtain ⟨gap, hgap⟩ := Nat.exists_eq_add_of_le hle
  have hsize : size * p = base * p + dust * p := by rw [← hdust, Nat.add_mul]
  have hroom : s * (1 + size * p / s - lockedUsdc investors) = s * (gap + 1) := by
    congr 1
    omega
  rw [hroom]
  have hprice : size * p < lockedUsdc investors * s + s * (gap + 1) := by
    calc size * p < s * (size * p / s + 1) := hcap
      _ = lockedUsdc investors * s + s * (gap + 1) := by rw [hgap]; ring
  rw [Nat.add_mul] at hbase
  omega

/-! ## The settlement -/

/-- The settlement of a round of `size` wALN at price `p` and scale `s`.  The participants are those
of `sold`; the transaction leads from `w` to `w'` and writes `account` and `record`. -/
structure FullSettlement (s p size : ℕ) (w sold w' : World) (account : RoundLockedWaln)
    (record : RoundRecord) (bonus : Pubkey → ℕ) : Prop where
  /-- Everybody with a lock has an entry: what the lock buys, and the bonus. -/
  entries : account.investors.Perm ((participants sold.pool.investors).map fun r =>
    ⟨r.investor, r.usdcLockedCurrentRound * s / p + bonus r.investor⟩)
  /-- The lifetime wALN grows by the same amount. -/
  purchased : ∀ r ∈ participants sold.pool.investors,
    purchasedOf r.investor w'.pool.investors = purchasedOf r.investor w.pool.investors
      + (r.usdcLockedCurrentRound * s / p + bonus r.investor)
  /-- One of them gets the old carryover on top, and nobody else gets anything. -/
  winner : ∃ r ∈ participants sold.pool.investors,
    ∀ k, bonus k = if k = r.investor then w.state.walnDustCarryover else 0
  recorded : record.walnPurchased = (account.investors.map InvestorAlloc.walnAmount).sum
  conserved : record.walnPurchased + w'.state.walnDustCarryover
    = size + w.state.walnDustCarryover
  locked_le : lockedUsdc sold.pool.investors ≤ size * p / s
  carryover : w'.state.walnDustCarryover * p
    < s * (1 + size * p / s - lockedUsdc sold.pool.investors)
      + (participants sold.pool.investors).length * p

/-- The entries of a full round, in some order. -/
lemma fullEntries_perm (now : ℤ) (h : Inv env w) (hstarted : w.state.roundStarted = true) :
    (w.fullEntries env now).Perm (Floor.fullEntries (10 ^ w.decimals env)
      w.state.currentRoundFloorPrice now w.state.walnDustCarryover w.pool.investors) := by
  rw [World.fullEntries, claimableEntries_of_pos]
  · exact sortByKey_perm _
  · intro a ha
    obtain ⟨r, hr, rfl⟩ := List.mem_map.mp ha
    obtain ⟨hmem, hpos⟩ := mem_participants.mp hr
    exact Nat.add_pos_left ((h.round hstarted).baseWaln_pos hmem hpos) _

/-- What an investor of the pool may claim of a full round. -/
lemma amountOf_world_fullEntries (now : ℤ) {r : InvestorRecord} (h : Inv env w)
    (hstarted : w.state.roundStarted = true) (hr : r ∈ w.pool.investors) :
    amountOf (w.fullEntries env now) r.investor
      = baseWaln (10 ^ w.decimals env) w.state.currentRoundFloorPrice r
        + bonusOf now w.state.walnDustCarryover w.pool.investors r := by
  have hperm := fullEntries_perm now h hstarted
  rw [← amountOf_fullEntries h.keys hr]
  exact (valueOf_perm (nodupKeys_data h.keys fullEntries_keys) hperm.symm).symm

lemma entriesWaln_world_fullEntries (now : ℤ) (h : Inv env w)
    (hstarted : w.state.roundStarted = true) :
    entriesWaln (w.fullEntries env now)
      = (w.pool.investors.map
          (baseWaln (10 ^ w.decimals env) w.state.currentRoundFloorPrice)).sum
        + w.state.walnDustCarryover := by
  have hperm := (fullEntries_perm now h hstarted).map InvestorAlloc.walnAmount
  exact hperm.sum_eq.trans
    (entriesWaln_fullEntries h.keys (h.round hstarted).participants_ne_nil)

/-- **The settlement of a full round.** -/
theorem full_round_settlement {wm um : Pubkey} {maxWaln usdcOut : ℕ} {plan : SalePlan}
    {remaining : List AccountInfo} {r : Receipt} (h : Reachable env w)
    (hsell : sellIntoRound env ctx wm um maxWaln w = .ok (plan, remaining, usdcOut, sold))
    (hfull : plan.roundSizeWaln ≤ sold.state.currentRoundWaln)
    (hx : sellWaln env ctx wm um maxWaln w = .ok (w', r)) :
    ∃ (account : Account RoundLockedWaln) (record : Account RoundRecord) (bonus : Pubkey → ℕ),
      w'.roundLockedWaln = w.roundLockedWaln ++ [account] ∧
      w'.roundRecords = w.roundRecords ++ [record] ∧
      account.data.roundIndex = w.state.roundCount ∧
      record.data.roundIndex = w.state.roundCount ∧
      FullSettlement (10 ^ (env.mint wm).decimals.toNat) plan.floorPriceUsdc plan.roundSizeWaln
        w sold w' account.data record.data bonus := by
  obtain ⟨hsold, hstarted, hdecimals, hprice, hsize⟩ := h.sold hsell
  obtain ⟨settled, dust, hs, -⟩ := sellWaln_settles h hsell hfull hx
  obtain ⟨l, haccount⟩ := hs.account
  obtain ⟨l', volume, hrecord⟩ := hs.record
  have hround := hsold.round hstarted
  have hsome := hround.participants_ne_nil
  have hcarry : sold.state.walnDustCarryover = w.state.walnDustCarryover :=
    hs.before.walnDustCarryover
  have hdust : w'.state.walnDustCarryover = dust := by
    rw [hs.after.walnDustCarryover, hs.settle.state]
  have hwaln := hs.settle.waln
  have hsum := entriesWaln_world_fullEntries ctx.now hsold hstarted
  have hfilled : sold.state.currentRoundWaln = sold.state.currentRoundSizeWaln :=
    le_antisymm hround.waln_le (hsize ▸ hfull)
  rw [hcarry] at hwaln hsum
  rw [hdecimals, hprice, hsize]
  refine ⟨_, _, dustBonus ctx.now w.state.walnDustCarryover
    ((participants sold.pool.investors).map byInvestor), haccount, hrecord, rfl, rfl, ?_⟩
  exact
    { entries := hcarry ▸ fullEntries_perm ctx.now hsold hstarted
      purchased := by
        intro x hx
        rw [hs.purchasedOf,
          amountOf_world_fullEntries ctx.now hsold hstarted (mem_participants.mp hx).1, hcarry]
        rfl
      winner := by
        obtain ⟨_, hmem, -, hbonus⟩ := exists_dustWinner ctx.now (mt List.map_eq_nil_iff.mp hsome)
        obtain ⟨x, hx, rfl⟩ := List.mem_map.mp hmem
        exact ⟨x, hx, hbonus _⟩
      recorded := rfl
      conserved := by
        rw [hdust, ← hfilled]
        exact hwaln
      locked_le := hround.locked_le
      carryover := by
        rw [hdust]
        refine carryover_lt (scale_pos _) hround.price_pos hsome hround.locked_le ?_
        omega }

/-- The second round of the small deployment: the two units of dust of the first round go to the
second participant, and two are carried over again. -/
theorem full_round_settlement_second_round :
    ∃ w sold w' account record bonus, Reachable (sampleEnv 9) w ∧
      w.state.walnDustCarryover = 2 ∧ w'.state.walnDustCarryover = 2 ∧
      FullSettlement (10 ^ 9) 3 5000000000 w sold w' account record bonus ∧
      account.investors = [⟨21, 1666666666⟩, ⟨22, 1666666668⟩, ⟨23, 1666666666⟩] := by
  obtain ⟨w₀, hist, w, hinit, hrun, hw⟩ := exists_sample_history 9 3 5000000000
    (threeInvestors 10 20 ++ [sell 0 5000000000])
    (fun _ _ w => w.state.walnDustCarryover = 2 ∧
      isOkAnd (fun x => decide (x.1.floorPriceUsdc = 3 ∧ x.1.roundSizeWaln = 5000000000 ∧
          5000000000 ≤ x.2.2.2.state.currentRoundWaln))
        (sellIntoRound (sampleEnv 9) (signedBy 99 1 (roundAccounts 1)) 11 10 5000000000 w) ∧
      isOkAnd (fun x => decide (x.1.state.walnDustCarryover = 2 ∧
          x.1.roundLockedWaln.getLast?.map (fun a => a.data.investors)
            = some [⟨21, 1666666666⟩, ⟨22, 1666666668⟩, ⟨23, 1666666666⟩]))
        (sellWaln (sampleEnv 9) (signedBy 99 1 (roundAccounts 1)) 11 10 5000000000 w))
    (by decide +kernel)
  simp only [decide_eq_true_eq, isOkAnd_eq_true, Prod.exists] at hw
  obtain ⟨hdust, ⟨plan, remaining, usdcOut, sold, hsell, hprice, hsize, hfull⟩, w', r, hx, hdust',
    hlast⟩ := hw
  obtain ⟨account, record, bonus, haccount, -, -, -, hsettled⟩ :=
    full_round_settlement (hrun.reachable hinit) hsell (hsize ▸ hfull) hx
  rw [hprice, hsize] at hsettled
  refine ⟨w, sold, w', account.data, record.data, bonus, hrun.reachable hinit, hdust, hdust',
    hsettled, ?_⟩
  rw [haccount] at hlast
  simpa using hlast

end Floor
