import FloorProgram.Settling

/-!
# Claiming exactly once

From the settlement of a round on, its account holds the entries it was written with, less those
that have been claimed, until the last one is claimed and the account is gone.  That one statement
about the account (`Holding`) is kept by every transaction; everything else is read off it.
-/

namespace Floor

open Checked Loop Keyed Search

variable {env : Env} {w w' w₂ : World} {ctx : Context} {k : Pubkey}

/-! ## The claims in a history -/

/-- What a transaction paid to `k` out of round `i`, if it is a claim by `k` of that round. -/
def claimOf (i : ℕ) (k : Pubkey) (e : Transition.Entry World Tx) : Option ℕ :=
  match e.label.instr with
  | .ClaimWaln _ j =>
    if j.toNat = i ∧ e.label.ctx.signer = k then some e.label.receipt.walnOut else none
  | _ => none

/-- All that `k` was paid out of round `i`. -/
def claimsOf (i : ℕ) (k : Pubkey) (h : List (Transition.Entry World Tx)) : List ℕ :=
  h.filterMap (claimOf i k)

lemma claimsOf_cons_none {i : ℕ} {e : Transition.Entry World Tx}
    {h : List (Transition.Entry World Tx)} (he : claimOf i k e = none) :
    claimsOf i k (e :: h) = claimsOf i k h := List.filterMap_cons_none he

lemma claimsOf_cons_some {i amount : ℕ} {e : Transition.Entry World Tx}
    {h : List (Transition.Entry World Tx)} (he : claimOf i k e = some amount) :
    claimsOf i k (e :: h) = amount :: claimsOf i k h := List.filterMap_cons_some he

/-- The entries, less those that have been claimed. -/
def unclaimedEntries (i : ℕ) (entries : List InvestorAlloc)
    (h : List (Transition.Entry World Tx)) : List InvestorAlloc :=
  entries.map fun a => if claimsOf i a.investor h = [] then a else clearedAlloc a

lemma unclaimedEntries_keys (i : ℕ) (entries : List InvestorAlloc)
    (h : List (Transition.Entry World Tx)) :
    (unclaimedEntries i entries h).map InvestorAlloc.investor
      = entries.map InvestorAlloc.investor := by
  rw [unclaimedEntries, List.map_map]
  refine List.map_congr_left fun a _ => ?_
  simp only [Function.comp_apply]
  split_ifs <;> rfl

/-- Nothing changes for a round that is not claimed from. -/
lemma unclaimedEntries_cons {i : ℕ} {entries : List InvestorAlloc}
    {e : Transition.Entry World Tx} {h : List (Transition.Entry World Tx)}
    (he : ∀ k, claimOf i k e = none) :
    unclaimedEntries i entries (e :: h) = unclaimedEntries i entries h := by
  simp only [unclaimedEntries, claimsOf_cons_none (he _)]

/-- A claim clears the entry of its signer. -/
lemma unclaimedEntries_claim {i amount : ℕ} {entries : List InvestorAlloc}
    {e : Transition.Entry World Tx} {h : List (Transition.Entry World Tx)}
    (hsorted : StrictSorted InvestorAlloc.investor entries)
    (hk : claimOf i k e = some amount) (hother : ∀ j, j ≠ k → claimOf i j e = none) :
    unclaimedEntries i entries (e :: h)
      = modifyFirst InvestorAlloc.investor k clearedAlloc (unclaimedEntries i entries h) := by
  have hnodup : NodupKeys InvestorAlloc.investor (unclaimedEntries i entries h) := by
    rw [NodupKeys, unclaimedEntries_keys]
    exact hsorted.nodupKeys
  rw [modifyFirst_eq_map hnodup, unclaimedEntries, unclaimedEntries, List.map_map]
  refine List.map_congr_left fun a _ => ?_
  simp only [Function.comp_apply]
  by_cases ha : a.investor = k
  · rw [ha, claimsOf_cons_some hk, if_neg (by simp)]
    split_ifs <;> simp_all [clearedAlloc]
  · rw [claimsOf_cons_none (hother _ ha)]
    split_ifs <;> simp_all [clearedAlloc]

/-- The entry of `k` is there, whole or cleared. -/
lemma lookup_unclaimedEntries {i : ℕ} {entries : List InvestorAlloc}
    {h : List (Transition.Entry World Tx)} :
    lookup InvestorAlloc.investor k (unclaimedEntries i entries h)
      = (lookup InvestorAlloc.investor k entries).map fun a =>
          if claimsOf i k h = [] then a else clearedAlloc a := by
  induction entries with
  | nil => rfl
  | cons a entries ih =>
      by_cases ha : a.investor = k
      · subst ha
        simp only [unclaimedEntries, List.map_cons, lookup] at ih ⊢
        split_ifs <;> simp [clearedAlloc]
      · have ha' : (if claimsOf i a.investor h = [] then a else clearedAlloc a).investor ≠ k := by
          split_ifs <;> exact ha
        simp only [unclaimedEntries, List.map_cons, lookup] at ih ⊢
        simp only [List.find?_cons, decide_eq_false ha', decide_eq_false ha]
        exact ih

/-- While something is left to claim, somebody has not claimed. -/
lemma exists_unclaimed {i : ℕ} {entries : List InvestorAlloc}
    {h : List (Transition.Entry World Tx)} (hpos : 0 < unclaimed (unclaimedEntries i entries h)) :
    ∃ a ∈ entries, claimsOf i a.investor h = [] := by
  obtain ⟨b, hb⟩ := List.exists_mem_of_length_pos hpos
  obtain ⟨hmem, hb⟩ := List.mem_filter.mp hb
  obtain ⟨a, ha, rfl⟩ := List.mem_map.mp hmem
  refine ⟨a, ha, ?_⟩
  by_contra hclaimed
  simp [hclaimed, clearedAlloc] at hb

lemma all_claimed {i : ℕ} {entries : List InvestorAlloc} {h : List (Transition.Entry World Tx)}
    (hentries : ∀ a ∈ entries, 0 < a.walnAmount)
    (hzero : unclaimed (unclaimedEntries i entries h) = 0) :
    ∀ a ∈ entries, claimsOf i a.investor h ≠ [] := by
  intro a ha hnil
  have hmem : a ∈ (unclaimedEntries i entries h).filter fun a => 0 < a.walnAmount := by
    refine List.mem_filter.mpr ⟨List.mem_map.mpr ⟨a, ha, if_pos hnil⟩, ?_⟩
    simpa using hentries a ha
  rw [unclaimed, List.length_eq_zero_iff] at hzero
  rw [hzero] at hmem
  cases hmem

/-! ## The account of a round -/

lemma lookup_clearedAccount {i j : ℕ} {accounts : List (Account RoundLockedWaln)} :
    lookup lockedIndex i (modifyFirst lockedIndex j (clearedAccount k) accounts)
      = if i = j then (lookup lockedIndex i accounts).map (clearedAccount k)
        else lookup lockedIndex i accounts :=
  lookup_modifyFirst (f := clearedAccount k) (fun _ => rfl) i

/-- The account of round `i` after a history: what has not been claimed, or nothing once all has. -/
structure Holding (i : ℕ) (unlock : ℤ) (entries : List InvestorAlloc)
    (h : List (Transition.Entry World Tx)) (w : World) : Prop where
  index_lt : i < w.state.roundCount
  present : ∀ account, lookup lockedIndex i w.roundLockedWaln = some account →
    account.data.unlock = unlock ∧ account.data.investors = unclaimedEntries i entries h
  absent : lookup lockedIndex i w.roundLockedWaln = none →
    ∀ a ∈ entries, claimsOf i a.investor h ≠ []
  paid : ∀ k, claimsOf i k h = [] ∨
    ∃ a, lookup InvestorAlloc.investor k entries = some a ∧ claimsOf i k h = [a.walnAmount]

section Step

variable {i : ℕ} {unlock : ℤ} {entries : List InvestorAlloc}
  {h : List (Transition.Entry World Tx)} {e : Transition.Entry World Tx}

/-- A transaction that does not touch the account of the round. -/
lemma Holding.other (hh : Holding i unlock entries h w) (he : ∀ k, claimOf i k e = none)
    (hcount : w.state.roundCount ≤ w'.state.roundCount)
    (hsame : lookup lockedIndex i w'.roundLockedWaln = lookup lockedIndex i w.roundLockedWaln) :
    Holding i unlock entries (e :: h) w' := by
  refine ⟨hh.index_lt.trans_le hcount, fun account haccount => ?_, fun hnone a ha => ?_,
    fun k => ?_⟩
  · rw [unclaimedEntries_cons he]
    exact hh.present account (hsame ▸ haccount)
  · rw [claimsOf_cons_none (he _)]
    exact hh.absent (hsame ▸ hnone) a ha
  · rw [claimsOf_cons_none (he _)]
    exact hh.paid k

/-- **A claim** pays the whole entry of its signer, who had not claimed before. -/
lemma Holding.claim {account : Account RoundLockedWaln} {a : InvestorAlloc} {r : Receipt}
    (hsorted : StrictSorted InvestorAlloc.investor entries)
    (hpos : ∀ a ∈ entries, 0 < a.walnAmount) (hh : Holding i unlock entries h w)
    (hc : Claimed w ctx i account a w' r)
    (hself : claimOf i ctx.signer e = some r.walnOut)
    (hother : ∀ k, k ≠ ctx.signer → claimOf i k e = none) :
    Holding i unlock entries (e :: h) w' ∧ unlock ≤ ctx.now := by
  obtain ⟨hunlock, hinvestors⟩ := hh.present account hc.found
  -- the entry is whole, so nothing was claimed before
  have hentry := hc.entry
  rw [hinvestors, lookup_unclaimedEntries, Option.map_eq_some_iff] at hentry
  obtain ⟨a₀, ha₀, hwhole⟩ := hentry
  have hnone : claimsOf i ctx.signer h = [] := by
    by_contra hclaimed
    have hpositive := hc.positive
    rw [if_neg hclaimed] at hwhole
    rw [← hwhole] at hpositive
    exact absurd hpositive (lt_irrefl 0)
  rw [if_pos hnone] at hwhole
  subst hwhole
  have hcleared := unclaimedEntries_claim (h := h) hsorted hself hother
  refine ⟨⟨hc.state ▸ hh.index_lt, fun account' haccount' => ?_, fun hgone => ?_, fun k => ?_⟩,
    hunlock ▸ hc.unlock⟩
  · rcases hc.accounts with ⟨-, haccounts⟩ | ⟨-, haccounts⟩
    · rw [haccounts, lookup_filter_self] at haccount'
      cases haccount'
    · rw [haccounts, lookup_clearedAccount, if_pos rfl, hc.found] at haccount'
      obtain rfl := Option.some.inj haccount'
      exact ⟨hunlock, by rw [hcleared, ← hinvestors]; rfl⟩
  · rcases hc.accounts with ⟨hlast, -⟩ | ⟨-, haccounts⟩
    · refine all_claimed hpos ?_
      have hcount := unclaimed_cleared hc.entry hc.positive
      rw [hcleared, ← hinvestors]
      omega
    · rw [haccounts, lookup_clearedAccount, if_pos rfl, hc.found] at hgone
      cases hgone
  · by_cases hk : k = ctx.signer
    · subst hk
      refine .inr ⟨a₀, ha₀, ?_⟩
      rw [claimsOf_cons_some hself, hnone, hc.receipt]
    · rw [claimsOf_cons_none (hother k hk)]
      exact hh.paid k

end Step

lemma claimOf_eq_none {i : ℕ} {tx : Tx} (hi : ∀ m j, tx.instr ≠ .ClaimWaln m j) :
    claimOf i k ⟨w, tx, w'⟩ = none := by
  obtain ⟨ctx, instr, r⟩ := tx
  cases instr with
  | ClaimWaln m j => exact absurd rfl (hi m j)
  | _ => rfl

lemma claimOf_claim {i : ℕ} {m : Pubkey} {j : UInt64} {r : Receipt} :
    claimOf i k ⟨w, ⟨ctx, .ClaimWaln m j, r⟩, w'⟩
      = if j.toNat = i ∧ ctx.signer = k then some r.walnOut else none := rfl

/-- **One transaction** keeps the account of a settled round, and a claim from it is not before its
unlock. -/
theorem Effect.holding {i : ℕ} {unlock : ℤ} {entries : List InvestorAlloc} {tx : Tx}
    {h : List (Transition.Entry World Tx)} (hinv : Inv env w)
    (hopen : w.state.roundStarted = true → RoundOpen (w.decimals env) w.state)
    (he : Effect env w tx.ctx tx.instr w' tx.receipt)
    (hsorted : StrictSorted InvestorAlloc.investor entries)
    (hpos : ∀ a ∈ entries, 0 < a.walnAmount) (hh : Holding i unlock entries h w) :
    Holding i unlock entries (⟨w, tx, w'⟩ :: h) w' ∧
      ((∃ k, claimOf i k ⟨w, tx, w'⟩ ≠ none) → unlock ≤ tx.ctx.now) := by
  by_cases hclaim : ∃ m j, tx.instr = .ClaimWaln m j
  · obtain ⟨ctx, instr, r⟩ := tx
    obtain ⟨m, j, rfl⟩ := hclaim
    obtain ⟨account, a, hc⟩ := he.claimed hinv
    by_cases hj : j.toNat = i
    · subst hj
      obtain ⟨hnext, hle⟩ := hh.claim (e := ⟨w, ⟨ctx, .ClaimWaln m j, r⟩, w'⟩) hsorted hpos hc
        (by rw [claimOf_claim, if_pos ⟨rfl, rfl⟩])
        (fun k hk => by rw [claimOf_claim, if_neg fun hboth => hk hboth.2.symm])
      exact ⟨hnext, fun _ => hle⟩
    · -- a claim from another round
      have hnone : ∀ k, claimOf i k ⟨w, ⟨ctx, .ClaimWaln m j, r⟩, w'⟩ = none := fun k => by
        rw [claimOf_claim, if_neg fun hboth => hj hboth.1]
      refine ⟨hh.other hnone (by rw [hc.state]) ?_, fun ⟨k, hk⟩ => absurd (hnone k) hk⟩
      rcases hc.accounts with ⟨-, haccounts⟩ | ⟨-, haccounts⟩
      · rw [haccounts, lookup_filter_of_ne hj]
      · rw [haccounts, lookup_clearedAccount, if_neg (Ne.symm hj)]
  · have hnone : ∀ k, claimOf i k ⟨w, tx, w'⟩ = none := fun k =>
      claimOf_eq_none fun m j heq => hclaim ⟨m, j, heq⟩
    refine ⟨?_, fun ⟨k, hk⟩ => absurd (hnone k) hk⟩
    rcases he.settles_or_keeps hinv hopen with hyes | ⟨haccounts, hcount⟩ | ⟨_, _, _, _, _, hs⟩
    · exact absurd hyes hclaim
    · exact hh.other hnone hcount.ge (by rw [haccounts])
    · obtain ⟨l, haccounts⟩ := hs.account
      refine hh.other hnone (by rw [hs.roundCount]; exact Nat.le_succ _) ?_
      rw [haccounts]
      exact lookup_append_of_ne (Nat.ne_of_gt hh.index_lt)

/-! ## Round indices -/

/-- A new account has the index of the round in progress. -/
lemma Effect.new_account {i : Instruction} {r : Receipt} (hinv : Inv env w)
    (hopen : w.state.roundStarted = true → RoundOpen (w.decimals env) w.state)
    (he : Effect env w ctx i w' r) {b : Account RoundLockedWaln} (hb : b ∈ w'.roundLockedWaln) :
    (∃ b' ∈ w.roundLockedWaln, b'.data.roundIndex = b.data.roundIndex) ∨
      b.data.roundIndex = w.state.roundCount := by
  rcases he.settles_or_keeps hinv hopen with ⟨m, j, rfl⟩ | ⟨haccounts, -⟩ | ⟨_, _, _, _, _, hs⟩
  · obtain ⟨account, a, hc⟩ := he.claimed hinv
    left
    rcases hc.accounts with ⟨-, haccounts⟩ | ⟨-, haccounts⟩
    · rw [haccounts] at hb
      exact ⟨b, (List.mem_filter.mp hb).1, rfl⟩
    · rw [haccounts] at hb
      have hindices : (modifyFirst lockedIndex j.toNat (clearedAccount ctx.signer)
          w.roundLockedWaln).map lockedIndex = w.roundLockedWaln.map lockedIndex :=
        map_modifyFirst fun _ => rfl
      have hindex := List.mem_map_of_mem (f := lockedIndex) hb
      rw [hindices] at hindex
      exact List.mem_map.mp hindex
  · exact .inl ⟨b, haccounts ▸ hb, rfl⟩
  · obtain ⟨l, haccounts⟩ := hs.account
    rw [haccounts, List.mem_append, List.mem_singleton] at hb
    rcases hb with hb | rfl
    · exact .inl ⟨b, hb, rfl⟩
    · exact .inr rfl

/-- A new record has the index of the round in progress. -/
lemma Effect.new_record {i : Instruction} {r : Receipt} (hinv : Inv env w)
    (hopen : w.state.roundStarted = true → RoundOpen (w.decimals env) w.state)
    (he : Effect env w ctx i w' r) {b : Account RoundRecord} (hb : b ∈ w'.roundRecords) :
    b ∈ w.roundRecords ∨ b.data.roundIndex = w.state.roundCount := by
  have hsettled : ∀ {now : ℤ} {mid settled : World} {entries : List InvestorAlloc} {usdc dust : ℕ},
      Settles env now w mid settled w' entries usdc dust →
      b ∈ w.roundRecords ∨ b.data.roundIndex = w.state.roundCount := by
    intro now mid settled entries usdc dust hs
    obtain ⟨l, volume, hrecords⟩ := hs.record
    rw [hrecords, List.mem_append, List.mem_singleton] at hb
    rcases hb with hb | rfl
    · exact .inl hb
    · exact .inr rfl
  cases he with
  | ManageRent _ hrecords => exact .inl (hrecords.subset hb)
  | Close hstarted _ hs => exact hsettled (settles_of_close hinv hstarted hs)
  | Sell hopened hpaid _ =>
      exact .inl (((hopened.keeps hinv).trans hpaid.keeps).roundRecords ▸ hb)
  | SellFull hopened hpaid _ hs _ hnext =>
      exact hsettled (settles_of_fill hinv hopen hopened hpaid hs hnext)
  | _ => exact .inl hb

/-! ## Runs -/

/-- **What can happen to a settled round** `rlw` in a history `h` that leads to `w`. -/
structure ClaimsOnce (rlw : RoundLockedWaln) (h : List (Transition.Entry World Tx)) (w : World) :
    Prop where
  /-- A listed investor was paid nothing so far, or its whole amount, once. -/
  once : ∀ a ∈ rlw.investors, claimsOf rlw.roundIndex a.investor h = [] ∨
    claimsOf rlw.roundIndex a.investor h = [a.walnAmount]
  /-- Nobody else was paid anything. -/
  unlisted : ∀ k, (∀ a ∈ rlw.investors, a.investor ≠ k) → claimsOf rlw.roundIndex k h = []
  /-- No claim came before the unlock. -/
  unlocked : ∀ e ∈ h, (∃ k, claimOf rlw.roundIndex k e ≠ none) → rlw.unlock ≤ e.label.ctx.now
  /-- A listed investor that has not claimed is found. -/
  found : ∀ a ∈ rlw.investors, claimsOf rlw.roundIndex a.investor h = [] →
    ∃ account idx, lookup lockedIndex rlw.roundIndex w.roundLockedWaln = some account ∧
      binarySearch InvestorAlloc.investor a.investor account.data.investors = some idx ∧
      account.data.investors[idx]? = some a
  /-- The counter counts the entries that are left, so it can always be decremented. -/
  remaining : ∀ account, lookup lockedIndex rlw.roundIndex w.roundLockedWaln = some account →
    account.data.remainingToClaim
        = (account.data.investors.filter fun a => 0 < a.walnAmount).length ∧
      ∀ now k, takeAllocation now k account.data ≠ .error (.Program .ArithmeticOverflow)
  /-- The account is gone exactly when every entry has been claimed. -/
  closed : lookup lockedIndex rlw.roundIndex w.roundLockedWaln = none ↔
    ∀ a ∈ rlw.investors, claimsOf rlw.roundIndex a.investor h ≠ []
  /-- Accounts that appeared belong to later rounds. -/
  fresh : ∀ e ∈ h, ∀ b ∈ e.post.roundLockedWaln,
    (∀ b' ∈ e.pre.roundLockedWaln, b'.data.roundIndex ≠ b.data.roundIndex) →
    rlw.roundIndex < b.data.roundIndex
  /-- So do records that appeared. -/
  freshRecord : ∀ e ∈ h, ∀ b ∈ e.post.roundRecords, b ∉ e.pre.roundRecords →
    rlw.roundIndex < b.data.roundIndex

/-- A counter that is positive can be decremented. -/
lemma LockedInv.takeAllocation {rlw : RoundLockedWaln} (hl : LockedInv rlw) (now : ℤ) (k : Pubkey) :
    takeAllocation now k rlw ≠ .error (.Program .ArithmeticOverflow) := by
  have hfails : FailsOnly (· ≠ .Program .ArithmeticOverflow) (Floor.takeAllocation now k rlw) := by
    refine failsOnly_bind (failsOnly_ensure fun _ => by decide) fun _ _ => ?_
    refine failsOnly_bind (failsOnly_okOr fun _ => by decide) fun _ _ => ?_
    refine failsOnly_bind (failsOnly_okOr fun _ => by decide) fun _ _ => ?_
    refine failsOnly_bind (failsOnly_ensure fun _ => by decide) fun _ _ => ?_
    rw [checkedSub_of_le hl.remaining_pos, arith_some, ok_bind]
    exact failsOnly_pure _
  exact fun hfail => hfails _ hfail rfl

/-- What a history keeps about a settled round. -/
structure Kept (env : Env) (i : ℕ) (unlock : ℤ) (entries : List InvestorAlloc)
    (h : List (Transition.Entry World Tx)) (w : World) : Prop where
  reachable : Reachable env w
  holding : Holding i unlock entries h w
  unlocked : ∀ e ∈ h, (∃ k, claimOf i k e ≠ none) → unlock ≤ e.label.ctx.now
  fresh : ∀ e ∈ h, ∀ b ∈ e.post.roundLockedWaln,
    (∀ b' ∈ e.pre.roundLockedWaln, b'.data.roundIndex ≠ b.data.roundIndex) → i < b.data.roundIndex
  freshRecord : ∀ e ∈ h, ∀ b ∈ e.post.roundRecords, b ∉ e.pre.roundRecords → i < b.data.roundIndex

section Run

variable {i : ℕ} {unlock : ℤ} {entries : List InvestorAlloc}
  {h : List (Transition.Entry World Tx)}

/-- One more transaction. -/
lemma Kept.step {tx : Tx} (hsorted : StrictSorted InvestorAlloc.investor entries)
    (hpos : ∀ a ∈ entries, 0 < a.walnAmount) (hk : Kept env i unlock entries h w)
    (hstep : Step env w tx w') : Kept env i unlock entries (⟨w, tx, w'⟩ :: h) w' := by
  obtain ⟨hinv, hopen⟩ := reachable_inv hk.reachable
  have he := hk.reachable.effect hstep
  obtain ⟨hholding, hunlock⟩ := he.holding hinv hopen hsorted hpos hk.holding
  have hlater : i < w.state.roundCount := hk.holding.index_lt
  refine ⟨hk.reachable.step hstep, hholding, List.forall_mem_cons.mpr ⟨hunlock, hk.unlocked⟩,
    List.forall_mem_cons.mpr ⟨fun b hb hnew => ?_, hk.fresh⟩,
    List.forall_mem_cons.mpr ⟨fun b hb hnew => ?_, hk.freshRecord⟩⟩
  · rcases he.new_account hinv hopen hb with ⟨b', hb', hindex⟩ | hindex
    · exact absurd hindex (hnew b' hb')
    · exact hindex ▸ hlater
  · rcases he.new_record hinv hopen hb with hold | hindex
    · exact absurd hold hnew
    · exact hindex ▸ hlater

/-- What is kept is all that is claimed. -/
lemma Kept.claimsOnce {rlw : RoundLockedWaln}
    (hsorted : StrictSorted InvestorAlloc.investor rlw.investors)
    (hk : Kept env rlw.roundIndex rlw.unlock rlw.investors h w) : ClaimsOnce rlw h w := by
  obtain ⟨hinv, -⟩ := reachable_inv hk.reachable
  have hlookup : ∀ a ∈ rlw.investors,
      lookup InvestorAlloc.investor a.investor rlw.investors = some a := fun a ha =>
    (lookup_eq_some_iff hsorted.nodupKeys).mpr ⟨ha, rfl⟩
  refine
    { once := fun a ha => ?_
      unlisted := fun k hk' => ?_
      unlocked := hk.unlocked
      found := fun a ha hnone => ?_
      remaining := fun account haccount => ?_
      closed := ⟨hk.holding.absent, fun hall => ?_⟩
      fresh := hk.fresh
      freshRecord := hk.freshRecord }
  · rcases hk.holding.paid a.investor with hnone | ⟨a', ha', hpaid⟩
    · exact .inl hnone
    · obtain rfl := Option.some.inj ((hlookup a ha).symm.trans ha')
      exact .inr hpaid
  · rcases hk.holding.paid k with hnone | ⟨a, ha, -⟩
    · exact hnone
    · exact absurd (lookup_key ha) (hk' a (lookup_mem ha))
  · cases haccount : lookup lockedIndex rlw.roundIndex w.roundLockedWaln with
    | none => exact absurd hnone (hk.holding.absent haccount a ha)
    | some account =>
        obtain ⟨-, hinvestors⟩ := hk.holding.present account haccount
        have hl := hinv.waln.accounts account (lookup_mem haccount)
        have hmem : a ∈ account.data.investors := by
          rw [hinvestors]
          exact List.mem_map.mpr ⟨a, ha, if_pos hnone⟩
        obtain ⟨idx, hidx, hget⟩ := List.getElem_of_mem hmem
        refine ⟨account, idx, rfl, ?_, by rw [List.getElem?_eq_getElem hidx, hget]⟩
        exact (binarySearch_eq_some_iff hl.sorted).mpr ⟨hidx, by rw [hget]⟩
  · have hl := hinv.waln.accounts account (lookup_mem haccount)
    exact ⟨hl.remaining, hl.takeAllocation⟩
  · -- an account that is there has something left to claim
    cases haccount : lookup lockedIndex rlw.roundIndex w.roundLockedWaln with
    | none => rfl
    | some account =>
        obtain ⟨-, hinvestors⟩ := hk.holding.present account haccount
        have hl := hinv.waln.accounts account (lookup_mem haccount)
        have hpos := hl.remaining_pos
        rw [hl.remaining, hinvestors] at hpos
        obtain ⟨a, ha, hnone⟩ := exists_unclaimed hpos
        exact absurd hnone (hall a ha)

end Run

/-- **Claim exactly once**: from any settlement on, in any run. -/
theorem claim_exactly_once {tx : Tx} (h : Reachable env w) (hstep : Step env w tx w')
    (hsettles : w'.state.roundCount ≠ w.state.roundCount) :
    ∃ account, w'.roundLockedWaln = w.roundLockedWaln ++ [account] ∧
      account.data.roundIndex = w.state.roundCount ∧
      ∀ hist w₂, History env w' hist w₂ → ClaimsOnce account.data hist w₂ := by
  obtain ⟨hinv, hopen⟩ := reachable_inv h
  have he := h.effect hstep
  rcases he.settles_or_keeps hinv hopen with ⟨m, j, hj⟩ | ⟨-, hcount⟩ | ⟨mid, _, entries, _, _, hs⟩
  · rw [hj] at he
    obtain ⟨account, a, hc⟩ := he.claimed hinv
    exact absurd (by rw [hc.state]) hsettles
  · exact absurd hcount hsettles
  · obtain ⟨account, haccounts, hfound, hindex, hunlock, hentries⟩ := hs.found hinv
    subst hentries
    have hsorted := hs.settle.settlement.sorted
    have hpos := hs.settle.settlement.positive
    have hstart : Kept env account.data.roundIndex account.data.unlock account.data.investors []
        w' := by
      refine ⟨h.step hstep, ⟨?_, fun account' haccount' => ?_, fun hnone => ?_, fun _ => .inl rfl⟩,
        by simp, by simp, by simp⟩
      · rw [hs.roundCount, hindex]
        exact Nat.lt_succ_self _
      · rw [hindex, hfound] at haccount'
        obtain rfl := Option.some.inj haccount'
        exact ⟨rfl, by simp [unclaimedEntries, claimsOf]⟩
      · rw [hindex, hfound] at hnone
        cases hnone
    refine ⟨account, haccounts, hindex, fun hist w₂ hrun => ?_⟩
    have hkept : Kept env account.data.roundIndex account.data.unlock account.data.investors hist
        w₂ := Transition.Trace.invariant hstart
      (fun _ _ _ _ _ hk hstep => hk.step hsorted hpos hstep) hrun
    exact hkept.claimsOnce hsorted

/-- The last step of a run pays `amount` to `k` out of the round that the step before it settled. -/
def claimsLast (k : Pubkey) (amount : ℕ) : List (Transition.Entry World Tx) → Bool
  | e :: s :: _ => decide (s.post.state.roundCount ≠ s.pre.state.roundCount ∧
      claimOf s.pre.state.roundCount k e = some amount)
  | _ => false

/-- A full round of three investors, unlocked at `101`; the second of them claims at `200`. -/
theorem claim_exactly_once_full_round :
    ∃ w tx w' account hist w₂, Reachable (sampleEnv 9) w ∧ Step (sampleEnv 9) w tx w' ∧
      w'.state.roundCount ≠ w.state.roundCount ∧
      w'.roundLockedWaln = w.roundLockedWaln ++ [account] ∧ History (sampleEnv 9) w' hist w₂ ∧
      claimsOf account.data.roundIndex 22 hist = [1666666666] ∧
      ClaimsOnce account.data hist w₂ := by
  obtain ⟨w₀, hist, w₂, hinit, hrun, hw⟩ := exists_sample_history 9 3 5000000000
    (threeInvestors 10 20 ++ [sell 0 5000000000, (signedBy 22 200 [], .ClaimWaln 11 0)])
    (fun _ h _ => claimsLast 22 1666666666 h) (by decide +kernel)
  match hist, hrun, hw with
  | e :: ⟨w, tx, w'⟩ :: h, hrun, hw =>
      simp only [claimsLast, decide_eq_true_eq] at hw
      obtain ⟨hsettles, hclaim⟩ := hw
      have hrun' : History (sampleEnv 9) w₀ ([e] ++ ⟨w, tx, w'⟩ :: h) w₂ := hrun
      obtain ⟨u, hsettled, hlater⟩ := Transition.Trace.of_append hrun'
      obtain ⟨hbefore, hstep, rfl⟩ := hsettled.of_cons
      have hreach : Reachable (sampleEnv 9) w := History.reachable hbefore hinit
      obtain ⟨account, haccounts, hindex, honce⟩ := claim_exactly_once hreach hstep hsettles
      refine ⟨w, tx, w', account, [e], w₂, hreach, hstep, hsettles, haccounts, hlater, ?_,
        honce _ _ hlater⟩
      rw [hindex, claimsOf_cons_some hclaim]
      rfl

end Floor
