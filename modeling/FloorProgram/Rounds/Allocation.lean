import FloorProgram.Settling

/-!
# Nobody pays for nothing

A lock is worth at least a two-millionth of the round, and the round is at least the minimum sell of
a billion, so every lock buys some wALN in a full round (`RoundInv.baseWaln_pos`) and gets some wALN
of a forced close (`RoundInv.closeShare_pos`).  Hence dropping the zero allocations drops nobody,
and it does not matter that one settlement counts the participants before and the other after it.
-/

namespace Floor

open Checked Loop Keyed Search

variable {env : Env} {w w' : World} {ctx : Context}

/-- Every investor with a lock is allocated some wALN. -/
def AllocatesAll (investors : List InvestorRecord) (data : List InvestorAlloc) : Prop :=
  ∀ r ∈ investors, 0 < r.usdcLockedCurrentRound →
    ∃ a ∈ data, a.investor = r.investor ∧ 0 < a.walnAmount

/-- The settlement of `mid` left an account whose entries are the investors with a lock, and a
record that counts them. -/
def RecordsAll (w mid w' : World) : Prop :=
  ∃ (account : Account RoundLockedWaln) (record : Account RoundRecord),
    w'.roundLockedWaln = w.roundLockedWaln ++ [account] ∧
    w'.roundRecords = w.roundRecords ++ [record] ∧
    account.data.roundIndex = mid.state.roundCount ∧
    record.data.roundIndex = mid.state.roundCount ∧
    (account.data.investors.map InvestorAlloc.investor).Perm
      ((mid.pool.investors.filter fun r => 0 < r.usdcLockedCurrentRound).map
        InvestorRecord.investor) ∧
    (∀ a ∈ account.data.investors, 0 < a.walnAmount) ∧
    record.data.participantCount = account.data.investors.length ∧
    account.data.remainingToClaim = account.data.investors.length

lemma Settles.recordsAll {now : ℤ} {mid settled : World} {entries : List InvestorAlloc}
    {usdc dust : ℕ} (hs : Settles env now w mid settled w' entries usdc dust) :
    RecordsAll w mid w' := by
  obtain ⟨l, haccount⟩ := hs.account
  obtain ⟨l', volume, hrecord⟩ := hs.record
  have hindex := hs.before.roundCount.symm
  exact ⟨_, _, haccount, hrecord, hindex, hindex, hs.settle.settlement.keys,
    hs.settle.settlement.positive, rfl, rfl⟩

/-- The first loop of a full settlement, before the dust is awarded. -/
lemma allocatesAll_settle (h : Inv env w) (hstarted : w.state.roundStarted = true)
    {charged : List InvestorRecord} {totals : SettleTotals}
    (hloop : forMut (settleRecord (10 ^ w.decimals env) w.state.currentRoundFloorPrice)
      SettleTotals.zero w.pool.investors = (charged, .ok totals)) :
    AllocatesAll w.pool.investors totals.participantData := by
  obtain ⟨-, -, -, -, hdata⟩ := forMut_settleRecord hloop
  intro r hr hpos
  refine ⟨baseEntry (10 ^ w.decimals env) w.state.currentRoundFloorPrice r, ?_, rfl,
    (h.round hstarted).baseWaln_pos hr hpos⟩
  rw [hdata]
  exact List.mem_append_right _ (List.mem_map_of_mem (mem_participants.mpr ⟨hr, hpos⟩))

/-- The three passes of a forced close. -/
lemma allocatesAll_close (h : Inv env w) (hstarted : w.state.roundStarted = true)
    (hsold : 0 < w.state.currentRoundWaln) {investors : List InvestorRecord} {totals : CloseTotals}
    (hpool : closePool (10 ^ w.decimals env) w.state.currentRoundFloorPrice w.state.currentRoundWaln
      w.state.currentRoundUsdcSpent w.pool.investors = .ok (investors, totals)) :
    AllocatesAll w.pool.investors totals.participantData := by
  obtain ⟨-, -, -, -, -, hset⟩ := closePool_settlement h.keys
    (fun _ hr => (h.round hstarted).closeShare_pos hsold (mem_participants.mp hr).1
      (mem_participants.mp hr).2) hpool
  intro r hr hpos
  have hkey : r.investor ∈ (participants w.pool.investors).map InvestorRecord.investor :=
    List.mem_map_of_mem (mem_participants.mpr ⟨hr, hpos⟩)
  obtain ⟨a, ha, hinvestor⟩ := List.mem_map.mp (hset.keys.mem_iff.mpr hkey)
  exact ⟨a, (sortByKey_perm _).mem_iff.mp ha, hinvestor, hset.positive a ha⟩

/-- **Nobody pays for nothing**, in either settlement. -/
theorem nobody_pays_for_nothing (h : Reachable env w) :
    (∀ ctx walnMint usdcMint maxWaln plan remaining usdcOut sold,
      sellIntoRound env ctx walnMint usdcMint maxWaln w = .ok (plan, remaining, usdcOut, sold) →
      plan.roundSizeWaln ≤ sold.state.currentRoundWaln →
      (∀ scale charged totals, walnScale (env.mint walnMint).decimals.toNat = .ok scale →
        forMut (settleRecord scale plan.floorPriceUsdc) SettleTotals.zero sold.pool.investors
          = (charged, .ok totals) →
        AllocatesAll sold.pool.investors totals.participantData) ∧
      ∀ w' r, sellWaln env ctx walnMint usdcMint maxWaln w = .ok (w', r) →
        RecordsAll w sold w') ∧
    (w.state.roundStarted = true → 0 < w.state.currentRoundWaln →
      (∀ scale investors totals, walnScale w.state.walnDecimals = .ok scale →
        closePool scale w.state.currentRoundFloorPrice w.state.currentRoundWaln
          w.state.currentRoundUsdcSpent w.pool.investors = .ok (investors, totals) →
        AllocatesAll w.pool.investors totals.participantData) ∧
      ∀ ctx w' r, closeRound env ctx w = .ok (w', r) → RecordsAll w w w') := by
  obtain ⟨hinv, -⟩ := reachable_inv h
  refine ⟨?_, fun hstarted hwaln => ⟨?_, ?_⟩⟩
  · intro ctx wm um maxWaln plan remaining usdcOut sold hsell hfull
    obtain ⟨hsold, hstarted, hdecimals, hprice, -⟩ := h.sold hsell
    refine ⟨fun scale charged totals hscale hloop => ?_, fun w' r hx => ?_⟩
    · obtain ⟨-, rfl⟩ := walnScale_eq_ok.mp hscale
      rw [hdecimals, hprice] at hloop
      exact allocatesAll_settle hsold hstarted hloop
    · obtain ⟨settled, dust, hs, -⟩ := sellWaln_settles h hsell hfull hx
      exact hs.recordsAll
  · intro scale investors totals hscale hpool
    obtain ⟨-, rfl⟩ := walnScale_eq_ok.mp hscale
    rw [hinv.viable.decimals] at hpool
    exact allocatesAll_close hinv hstarted hwaln hpool
  · intro ctx w' r hx
    cases closeRound_effect hinv hx with
    | Configure hi => simp [Instruction.configures] at hi
    | ManageRent hi => simp [Instruction.managesRent] at hi
    | Close _ _ hsettled => exact (settles_of_close hinv hstarted hsettled).recordsAll

/-- A round of three investors closed after two billion of five: all three get an entry. -/
theorem nobody_pays_for_nothing_forced_close :
    ∃ w w' r, Reachable (sampleEnv 9) w ∧ w.pool.investors.length = 3 ∧
      closeRound (sampleEnv 9) (signedBy 1 1 (roundAccounts 0)) w = .ok (w', r) ∧
      RecordsAll w w w' := by
  obtain ⟨w₀, hist, w, hinit, hrun, hw⟩ := exists_sample_history 9 3 5000000000
    (threeInvestors 10 20 ++ [sell 0 2000000000])
    (fun _ _ w => w.state.roundStarted = true ∧ 0 < w.state.currentRoundWaln ∧
      w.pool.investors.length = 3 ∧
      (closeRound (sampleEnv 9) (signedBy 1 1 (roundAccounts 0)) w).isOk = true)
    (by decide +kernel)
  have hreach := hrun.reachable hinit
  simp only [decide_eq_true_eq] at hw
  obtain ⟨hstarted, hwaln, hlength, hok⟩ := hw
  obtain ⟨⟨w', r⟩, hx⟩ :
      ∃ p, closeRound (sampleEnv 9) (signedBy 1 1 (roundAccounts 0)) w = .ok p := by
    cases hclose : closeRound (sampleEnv 9) (signedBy 1 1 (roundAccounts 0)) w with
    | ok p => exact ⟨p, rfl⟩
    | error e => simp [hclose, Except.isOk, Except.toBool] at hok
  exact ⟨w, w', r, hreach, hlength, hx,
    ((nobody_pays_for_nothing hreach).2 hstarted hwaln).2 _ w' r hx⟩

end Floor
