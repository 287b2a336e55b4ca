import FloorProgram.Settling

/-!
# The wALN vault

Every unit of wALN in the vault is either owed to an entry of a settled round, sold into the running
round, or dust carried over.

The two settlements round differently.  A full round rounds each allocation down on its own, so the
allocations fit into the round and what is left is the next dust; the old dust is in one of them.  A
forced close gives the last participant all that is left, so it leaves no dust.
-/

namespace Floor

open Checked Loop Keyed Search

variable {env : Env} {w w' : World} {ctx : Context}

lemma entriesWaln_le_lockedWaln {accounts : List (Account RoundLockedWaln)}
    {a : Account RoundLockedWaln} (ha : a ∈ accounts) :
    entriesWaln a.data.investors ≤ lockedWaln accounts :=
  List.single_le_sum (fun _ _ => Nat.zero_le _) _
    (List.mem_map_of_mem (f := fun a => entriesWaln a.data.investors) ha)

lemma walnAmount_le_entriesWaln {entries : List InvestorAlloc} {e : InvestorAlloc}
    (he : e ∈ entries) : e.walnAmount ≤ entriesWaln entries :=
  List.single_le_sum (fun _ _ => Nat.zero_le _) _ (List.mem_map_of_mem he)

/-- The vault covers every entry. -/
lemma Inv.walnAmount_le_vault (h : Inv env w) {a : Account RoundLockedWaln}
    (ha : a ∈ w.roundLockedWaln) {e : InvestorAlloc} (he : e ∈ a.data.investors) :
    e.walnAmount ≤ w.walnVault := by
  have := walnAmount_le_entriesWaln he
  have := entriesWaln_le_lockedWaln ha
  have := h.waln.vault
  omega

/-- **A claim succeeds** if its demands are met: the entry is found, and the vault covers it. -/
lemma claimWaln_total {i : ℕ} {m : Pubkey} {account : Account RoundLockedWaln} {a : InvestorAlloc}
    (h : Inv env w) (hfound : lookup lockedIndex i w.roundLockedWaln = some account)
    (hbump : account.data.bump = env.bump (.RoundLockedWaln i)) (hlive : w.state.frozen = false)
    (hmint : m = w.state.walnMint) (hunlock : account.data.unlock ≤ ctx.now)
    (hentry : lookup InvestorAlloc.investor ctx.signer account.data.investors = some a)
    (hpos : 0 < a.walnAmount) (hhooks : claimHookAccounts env ctx m = .ok ())
    (haccepts : ctx.cpiAccepts = true) (hlamports : w.treasury + account.lamports < 2 ^ 64) :
    ∃ w', claimWaln env ctx m i w = .ok (w', { walnOut := a.walnAmount }) := by
  have hlocked := h.waln.accounts account (lookup_mem hfound)
  obtain ⟨idx, hidx, hget⟩ := List.getElem_of_mem (lookup_mem hentry)
  have hsearch : binarySearch InvestorAlloc.investor ctx.signer account.data.investors
      = some idx :=
    (binarySearch_eq_some_iff hlocked.sorted).mpr ⟨hidx, by rw [hget]; exact lookup_key hentry⟩
  have htake : takeAllocation ctx.now ctx.signer account.data
      = .ok (a.walnAmount, account.data.claimed idx (account.data.remainingToClaim - 1)) := by
    rw [takeAllocation, ensure_of _ hunlock, ok_bind, hsearch, okOr, ok_bind,
      List.getElem?_eq_getElem hidx, hget, okOr, ok_bind, ensure_of _ hpos, ok_bind,
      checkedSub_of_le hlocked.remaining_pos, arith_some, ok_bind]
    rfl
  have hvault := h.walnAmount_le_vault (lookup_mem hfound) (lookup_mem hentry)
  have htransfer : transferOut ctx w.walnVault a.walnAmount
      = .ok (w.walnVault - a.walnAmount) := transferOut_eq_ok.mpr ⟨haccepts, hvault, rfl⟩
  have hstore : ∃ p, storeClaimed w.treasury i account
      (account.data.claimed idx (account.data.remainingToClaim - 1)) w.roundLockedWaln = .ok p := by
    rw [storeClaimed]
    split_ifs
    · rw [checkedAdd_of_lt hlamports, arith_some, ok_bind]
      exact ⟨_, rfl⟩
    · exact ⟨_, rfl⟩
  obtain ⟨⟨treasury, accounts⟩, hstore⟩ := hstore
  simp only [claimWaln, bind_eq_ok, okOr_eq_ok, require_eq_ok, ensure_eq_ok, Prod.exists,
    pure_eq_ok, Prod.mk.injEq]
  exact ⟨_, account, hfound, (), hbump, (), hlive, (), hmint, _, _, htake, (), hhooks, _,
    htransfer, treasury, accounts, hstore, rfl, rfl⟩

/-- Every account of a settled round keeps the bump of its address. -/
lemma Reachable.bump (hw : Reachable env w) :
    ∀ a ∈ w.roundLockedWaln, a.data.bump = env.bump (.RoundLockedWaln (lockedIndex a)) := by
  refine Transition.Reachable.invariant (P := fun w => ∀ a ∈ w.roundLockedWaln,
    a.data.bump = env.bump (.RoundLockedWaln (lockedIndex a))) (fun w hw => ?_)
    (fun w tx w' hw ih hstep => ?_) hw
  · rw [hw.empty.2]
    exact fun a ha => absurd ha (by simp)
  · obtain ⟨hinv, hopen⟩ := reachable_inv hw
    have heffect := Reachable.effect hw hstep
    rcases heffect.settles_or_keeps hinv hopen with
      ⟨m, j, hi⟩ | ⟨haccounts, -⟩ | ⟨_, _, _, _, _, hsettles⟩
    · obtain ⟨ctx, i, r⟩ := tx
      obtain rfl : i = .ClaimWaln m j := hi
      obtain ⟨account, a, hc⟩ := heffect.claimed hinv
      intro b hb
      rcases hc.accounts with ⟨-, haccounts⟩ | ⟨-, haccounts⟩
      · rw [haccounts] at hb
        exact ih b (List.mem_filter.mp hb).1
      · rw [haccounts] at hb
        rcases mem_modifyFirst hc.found hb with hb | rfl
        · exact ih b hb
        · exact ih account (lookup_mem hc.found)
    · rwa [haccounts]
    · obtain ⟨_, haccounts⟩ := hsettles.account
      intro a ha
      rw [haccounts] at ha
      rcases List.mem_append.mp ha with ha | ha
      · exact ih a ha
      · obtain rfl := List.mem_singleton.mp ha
        rfl

/-- The claim that takes the last unclaimed entry takes all the account holds. -/
lemma entriesWaln_of_last {k : Pubkey} {entries : List InvestorAlloc} {a : InvestorAlloc}
    (ha : lookup InvestorAlloc.investor k entries = some a) (hpos : 0 < a.walnAmount)
    (hlast : unclaimed entries = 1) : entriesWaln entries = a.walnAmount := by
  have hcount := unclaimed_cleared ha hpos
  have hnone : unclaimed (modifyFirst InvestorAlloc.investor k clearedAlloc entries) = 0 := by omega
  have hzero := entriesWaln_eq_zero hnone
  have := entriesWaln_cleared ha
  omega

/-- An account that a transaction removes had exactly what the transaction paid out. -/
lemma Effect.walnOut_of_removed {i : Instruction} {r : Receipt} (h : Inv env w)
    (hopen : w.state.roundStarted = true → RoundOpen (w.decimals env) w.state)
    (he : Effect env w ctx i w' r) {a : Account RoundLockedWaln} (ha : a ∈ w.roundLockedWaln)
    (hgone : ∀ a' ∈ w'.roundLockedWaln, a'.data.roundIndex ≠ a.data.roundIndex) :
    r.walnOut = entriesWaln a.data.investors := by
  rcases he.settles_or_keeps h hopen with ⟨m, j, rfl⟩ | ⟨hsame, -⟩ | ⟨_, _, _, _, _, hs⟩
  · obtain ⟨account, e, hc⟩ := he.claimed h
    rcases hc.accounts with ⟨hlast, haccounts⟩ | ⟨-, haccounts⟩
    · -- the account of the claimed round is the one that is gone
      obtain rfl : a = account := by
        by_contra hne
        have hj : lockedIndex a ≠ j.toNat := fun hj =>
          hne (eq_of_key_eq h.waln.indices ha (lookup_mem hc.found)
            (hj.trans (lookup_key hc.found).symm))
        refine hgone a ?_ rfl
        rw [haccounts]
        exact List.mem_filter.mpr ⟨ha, by simpa using hj⟩
      rw [hc.receipt, entriesWaln_of_last hc.entry hc.positive hlast]
    · -- all accounts are still there
      have hindices : w'.roundLockedWaln.map lockedIndex = w.roundLockedWaln.map lockedIndex := by
        rw [haccounts]
        exact map_modifyFirst fun _ => rfl
      have hmem := List.mem_map_of_mem (f := lockedIndex) ha
      rw [← hindices] at hmem
      obtain ⟨a', ha', hindex⟩ := List.mem_map.mp hmem
      exact absurd hindex (hgone a' ha')
  · exact absurd rfl (hgone a (hsame ▸ ha))
  · obtain ⟨l, haccount⟩ := hs.account
    exact absurd rfl (hgone a (haccount ▸ List.mem_append_left _ ha))

/-- The dust of a full round: what was sold and the old dust, less what was allocated. -/
lemma dustCarryover_total (h : Inv env w) (hstarted : w.state.roundStarted = true)
    (hfull : w.state.currentRoundSizeWaln ≤ w.state.currentRoundWaln) {now : ℤ}
    {investors : List InvestorRecord} {totals : SettleTotals}
    (hpool : settlePool (10 ^ w.decimals env) w.state.currentRoundFloorPrice now
      w.state.walnDustCarryover w.pool.investors = .ok (investors, totals)) :
    ∃ dust, dustCarryover w.state.currentRoundWaln w.state.walnDustCarryover
      totals.totalWalnPurchased = .ok dust := by
  have hround := h.round hstarted
  obtain ⟨-, hpurchased, -⟩ := settlePool_settlement h.keys
    (fun _ hr => hround.baseWaln_pos (mem_participants.mp hr).1 (mem_participants.mp hr).2)
    hround.participants_ne_nil hpool
  have hbase := hround.sum_baseWaln_le
  have hvault := h.waln.vault
  have hlt := h.waln.vault_lt
  have hle : totals.totalWalnPurchased
      ≤ w.state.currentRoundWaln + w.state.walnDustCarryover := by omega
  have hsum : w.state.currentRoundWaln + w.state.walnDustCarryover < 2 ^ 64 := by omega
  refine ⟨w.state.currentRoundWaln + w.state.walnDustCarryover - totals.totalWalnPurchased, ?_⟩
  simp only [dustCarryover, bind_eq_ok, arith_eq_ok, checkedAdd_eq_some, checkedSub_eq_some,
    tryFrom_eq_some]
  exact ⟨_, ⟨hsum.trans (by decide), rfl⟩, _, ⟨hle, rfl⟩, (Nat.sub_le _ _).trans_lt hsum, rfl⟩

/-- **wALN conservation**, and what follows for claims, closed accounts and the new dust.  Every
entry can be paid: the vault covers it, and `claim_waln` by its investor succeeds and pays it once
the round has unlocked, on an unfrozen contract with the right accounts, if the lamports of the
account fit into the treasury. -/
theorem waln_conservation (h : Reachable env w) :
    w.walnVault
        = (w.roundLockedWaln.map fun a => (a.data.investors.map fun e => e.walnAmount).sum).sum
          + w.state.currentRoundWaln + w.state.walnDustCarryover ∧
      (∀ a ∈ w.roundLockedWaln, ∀ e ∈ a.data.investors, ∀ ctx : Context, ctx.cpiAccepts = true →
        transferOut ctx w.walnVault e.walnAmount = .ok (w.walnVault - e.walnAmount)) ∧
      (∀ a ∈ w.roundLockedWaln, ∀ e ∈ a.data.investors, 0 < e.walnAmount → ∀ ctx : Context,
        ctx.signer = e.investor → a.data.unlock ≤ ctx.now → w.state.frozen = false →
        claimHookAccounts env ctx w.state.walnMint = .ok () → ctx.cpiAccepts = true →
        w.treasury + a.lamports < 2 ^ 64 →
        ∃ w', claimWaln env ctx w.state.walnMint a.data.roundIndex w
          = .ok (w', { walnOut := e.walnAmount })) ∧
      (∀ tx w', Step env w tx w' → ∀ a ∈ w.roundLockedWaln,
        (∀ a' ∈ w'.roundLockedWaln, a'.data.roundIndex ≠ a.data.roundIndex) →
        tx.receipt.walnOut = (a.data.investors.map fun e => e.walnAmount).sum) ∧
      (∀ ctx walnMint usdcMint maxWaln plan remaining usdcOut sold scale investors totals,
        sellIntoRound env ctx walnMint usdcMint maxWaln w = .ok (plan, remaining, usdcOut, sold) →
        plan.roundSizeWaln ≤ sold.state.currentRoundWaln →
        walnScale (env.mint walnMint).decimals.toNat = .ok scale →
        settlePool scale plan.floorPriceUsdc ctx.now sold.state.walnDustCarryover
          sold.pool.investors = .ok (investors, totals) →
        ∃ dust, dustCarryover sold.state.currentRoundWaln sold.state.walnDustCarryover
          totals.totalWalnPurchased = .ok dust) ∧
      (∀ scale investors totals, w.state.roundStarted = true → 0 < w.state.currentRoundWaln →
        walnScale w.state.walnDecimals = .ok scale →
        closePool scale w.state.currentRoundFloorPrice w.state.currentRoundWaln
          w.state.currentRoundUsdcSpent w.pool.investors = .ok (investors, totals) →
        ∃ newDust, checkedSub w.state.currentRoundWaln totals.totalWalnPurchased = some newDust ∧
          (checkedAdd 64 w.state.walnDustCarryover newDust).isSome = true) := by
  obtain ⟨hinv, hopen⟩ := reachable_inv h
  refine ⟨hinv.waln.vault, fun a ha e he ctx hcpi => ?_,
    fun a ha e he hpos ctx hsigner hunlock hlive hhooks hcpi hlamports => ?_,
    fun tx w' hstep a ha hgone => ?_, ?_, ?_⟩
  · exact transferOut_eq_ok.mpr ⟨hcpi, hinv.walnAmount_le_vault ha he, rfl⟩
  · have hfound : lookup lockedIndex a.data.roundIndex w.roundLockedWaln = some a :=
      (lookup_eq_some_iff hinv.waln.indices).mpr ⟨ha, rfl⟩
    have hentry : lookup InvestorAlloc.investor ctx.signer a.data.investors = some e :=
      (lookup_eq_some_iff (hinv.waln.accounts a ha).sorted.nodupKeys).mpr ⟨he, hsigner.symm⟩
    exact claimWaln_total hinv hfound (Reachable.bump h a ha) hlive rfl hunlock hentry hpos hhooks
      hcpi hlamports
  · exact (h.effect hstep).walnOut_of_removed hinv hopen ha hgone
  · intro ctx wm um maxWaln plan remaining usdcOut sold scale investors totals hsell hfull hscale
      hpool
    obtain ⟨hsold, hstarted, hdecimals, hprice, hsize⟩ := h.sold hsell
    obtain ⟨-, rfl⟩ := walnScale_eq_ok.mp hscale
    rw [hdecimals, hprice] at hpool
    exact dustCarryover_total hsold hstarted (hsize ▸ hfull) hpool
  · intro scale investors totals hstarted hsold hscale hpool
    obtain ⟨-, rfl⟩ := walnScale_eq_ok.mp hscale
    rw [hinv.viable.decimals] at hpool
    obtain ⟨-, hpurchased, -⟩ := closePool_settlement hinv.keys
      (fun _ hr => (hinv.round hstarted).closeShare_pos hsold (mem_participants.mp hr).1
        (mem_participants.mp hr).2) hpool
    have hvault := hinv.waln.vault
    have hlt := hinv.waln.vault_lt
    refine ⟨0, by simp [hpurchased], ?_⟩
    rw [checkedAdd_of_lt (by omega)]
    rfl

/-- A round of five billion at price three, and a second one with two billion sold: the vault holds
the entries, the running round and two units of dust. -/
theorem waln_conservation_two_rounds :
    ∃ w, Reachable (sampleEnv 9) w ∧ w.walnVault = 7000000000 ∧
      w.state.currentRoundWaln = 2000000000 ∧ w.state.walnDustCarryover = 2 ∧
      (w.roundLockedWaln.map fun a => (a.data.investors.map fun e => e.walnAmount).sum).sum
        = 4999999998 := by
  obtain ⟨w₀, hist, w, hinit, hrun, hw⟩ := exists_sample_history 9 3 5000000000
    (threeInvestors 10 20 ++ [sell 0 5000000000, sell 1 2000000000])
    (fun _ _ w => w.walnVault = 7000000000 ∧ w.state.currentRoundWaln = 2000000000 ∧
      w.state.walnDustCarryover = 2)
    (by decide +kernel)
  have hreach := hrun.reachable hinit
  obtain ⟨hvault, -⟩ := waln_conservation hreach
  simp only [decide_eq_true_eq] at hw
  exact ⟨w, hreach, hw.1, hw.2.1, hw.2.2, by omega⟩

end Floor
