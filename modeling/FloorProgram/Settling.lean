import FloorProgram.Refinement

/-!
# Transactions that settle a round

A round is settled by a forced close, or by the sell that fills it.  The second does more: it may
begin the round it fills, and it may begin the next one.  What both have in common is
`Settles`: up to a world `mid` only USDC has moved inside records, `mid` is settled, and after that
again USDC only moves inside records.

`Effect.settles_or_keeps` says that every other transaction, a claim apart, leaves the accounts of
settled rounds alone.
-/

namespace Floor

open Checked Loop Keyed Search

variable {env : Env} {w w' w'' : World} {ctx : Context}

/-- The phases of a round other than its settlement: USDC moves inside records, and the accounts,
the lobby and the dust stay. -/
structure Keeps (w w' : World) : Prop where
  pool : List.Forall₂ Moved w.pool.investors w'.pool.investors
  walnMint : w'.state.walnMint = w.state.walnMint
  roundCount : w'.state.roundCount = w.state.roundCount
  totalUsdcInLobby : w'.state.totalUsdcInLobby = w.state.totalUsdcInLobby
  walnDustCarryover : w'.state.walnDustCarryover = w.state.walnDustCarryover
  roundRecords : w'.roundRecords = w.roundRecords
  roundLockedWaln : w'.roundLockedWaln = w.roundLockedWaln

lemma Keeps.refl (w : World) : Keeps w w :=
  ⟨forall₂_moved_refl _, rfl, rfl, rfl, rfl, rfl, rfl⟩

/-- What two steps keep, both keep. -/
lemma Keeps.trans (h : Keeps w w') (h' : Keeps w' w'') : Keeps w w'' :=
  ⟨forall₂_moved_trans h.pool h'.pool, h'.walnMint.trans h.walnMint,
    h'.roundCount.trans h.roundCount, h'.totalUsdcInLobby.trans h.totalUsdcInLobby,
    h'.walnDustCarryover.trans h.walnDustCarryover, h'.roundRecords.trans h.roundRecords,
    h'.roundLockedWaln.trans h.roundLockedWaln⟩

/-- A start locks USDC in the records and keeps the rest. -/
lemma Begun.keeps (h : Inv env w) (hidle : w.state.roundStarted = false) (hb : Begun env w w') :
    Keeps w w' := by
  obtain ⟨investors, volume, locked, hstart, rfl⟩ := hb
  have hzero := lockedUsdc_eq_zero.mp (h.lobby.idle hidle).1
  exact ⟨(executeRoundStart_ok hzero hstart).moved, rfl, rfl, rfl, rfl, rfl, rfl⟩

/-- A sell that opens its round first keeps the rest too. -/
lemma Opened.keeps (h : Inv env w) (ho : Opened env w w') : Keeps w w' := by
  rcases ho with ⟨-, rfl⟩ | ⟨hidle, hb⟩
  · exact Keeps.refl _
  · exact hb.keeps h hidle

/-- Paying the seller touches no record and no account of a round. -/
lemma Paid.keeps {maxWaln walnAmount usdcOut : ℕ} (hp : Paid env maxWaln walnAmount usdcOut w w') :
    Keeps w w' := by
  rw [hp.world]
  exact ⟨forall₂_moved_refl _, rfl, rfl, rfl, rfl, rfl, rfl⟩

/-- The automatic start keeps what a start keeps. -/
lemma AutoStarted.keeps (h : Inv env w) (hidle : w.state.roundStarted = false)
    (ha : AutoStarted env w w') : Keeps w w' := by
  rcases ha with hb | ⟨rfl, -⟩
  · exact hb.keeps h hidle
  · exact Keeps.refl _

/-- A transaction settles the round in the world `mid` it has got to. -/
structure Settles (env : Env) (now : ℤ) (w mid settled w' : World) (entries : List InvestorAlloc)
    (usdc dust : ℕ) : Prop where
  before : Keeps w mid
  inv : Inv env mid
  started : mid.state.roundStarted = true
  settle : Settled env now entries usdc dust mid settled
  after : Keeps settled w'

/-- A settlement counts one round. -/
lemma Settles.roundCount {now : ℤ} {mid settled : World} {entries : List InvestorAlloc}
    {usdc dust : ℕ} (hs : Settles env now w mid settled w' entries usdc dust) :
    w'.state.roundCount = w.state.roundCount + 1 := by
  rw [hs.after.roundCount, hs.settle.state, ← hs.before.roundCount]

/-- The new account, after those that were there. -/
lemma Settles.account {now : ℤ} {mid settled : World} {entries : List InvestorAlloc}
    {usdc dust : ℕ} (hs : Settles env now w mid settled w' entries usdc dust) :
    ∃ lamports, w'.roundLockedWaln = w.roundLockedWaln ++
      [{ lamports := lamports
         data := { roundIndex := w.state.roundCount,
                   bump := env.bump (.RoundLockedWaln w.state.roundCount),
                   unlock := now + mid.state.currentRoundLockPeriod,
                   remainingToClaim := entries.length, investors := entries } }] := by
  obtain ⟨l, haccount⟩ := hs.settle.account
  rw [hs.before.roundCount, hs.before.roundLockedWaln] at haccount
  exact ⟨l, hs.after.roundLockedWaln.trans haccount⟩

/-- The new record, after those that were there. -/
lemma Settles.record {now : ℤ} {mid settled : World} {entries : List InvestorAlloc}
    {usdc dust : ℕ} (hs : Settles env now w mid settled w' entries usdc dust) :
    ∃ lamports volume, w'.roundRecords = w.roundRecords ++
      [{ lamports := lamports
         data := { roundIndex := w.state.roundCount, triggeredAt := now,
                   walnPurchased := entriesWaln entries, usdcSpent := usdc,
                   totalAatVolumeAtTrigger := volume, participantCount := entries.length,
                   bump := env.bump (.RoundRecord w.state.roundCount) } }] := by
  obtain ⟨l, volume, hrecord⟩ := hs.settle.record
  rw [hs.before.roundCount, hs.before.roundRecords] at hrecord
  exact ⟨l, volume, hs.after.roundRecords.trans hrecord⟩

/-- Up to the payment a sell keeps the accounts. -/
lemma Reachable.sold_keeps {wm um : Pubkey} {maxWaln usdcOut : ℕ} {plan : SalePlan}
    {remaining : List AccountInfo} {sold : World} (h : Reachable env w)
    (hsell : sellIntoRound env ctx wm um maxWaln w = .ok (plan, remaining, usdcOut, sold)) :
    Keeps w sold := by
  obtain ⟨hinv, -⟩ := reachable_inv h
  obtain ⟨w₁, hopened, hpaid, -⟩ := sellIntoRound_ok hinv hsell
  exact (hopened.keeps hinv).trans hpaid.keeps

/-- The world a sell has settled, before it starts the next round. -/
lemma Reachable.settled {wm um : Pubkey} {maxWaln usdcOut : ℕ} {plan : SalePlan}
    {remaining : List AccountInfo} {sold settled : World} {allocated : List InvestorAllocated}
    {closed : RoundClosed} (h : Reachable env w)
    (hsell : sellIntoRound env ctx wm um maxWaln w = .ok (plan, remaining, usdcOut, sold))
    (hsettle : settleWorld env ctx (env.mint wm).decimals.toNat plan.floorPriceUsdc remaining sold
      = .ok (settled, allocated, closed)) :
    (∃ dust, Settled env ctx.now (sold.fullEntries env ctx.now) (lockedUsdc sold.pool.investors)
      dust sold settled.unlockedForRound) ∧
    (env.mint wm).decimals.toNat = settled.decimals env ∧
    Inv env settled.unlockedForRound ∧ settled.state.roundStarted = false := by
  obtain ⟨hsold, hstarted, hdecimals, hprice, -⟩ := h.sold hsell
  rw [hdecimals, hprice] at hsettle
  obtain ⟨dust, hsettled, -⟩ := settleWorld_ok hsold hstarted hsettle
  obtain ⟨hinv, hidle⟩ := inv_settled hsold hstarted hsettled
  exact ⟨⟨dust, hsettled⟩, hdecimals.trans hsettled.decimals_eq.symm, hinv, hidle⟩

/-- A sell that reports a closed round has filled it. -/
lemma sellWaln_of_closed {wm um : Pubkey} {maxWaln : ℕ} {r : Receipt} {closed : RoundClosed}
    (hx : sellWaln env ctx wm um maxWaln w = .ok (w', r)) (hclosed : r.roundClosed = some closed) :
    ∃ plan remaining usdcOut sold,
      sellIntoRound env ctx wm um maxWaln w = .ok (plan, remaining, usdcOut, sold) ∧
      plan.roundSizeWaln ≤ sold.state.currentRoundWaln := by
  obtain ⟨plan, remaining, usdcOut, sold, hsell, ⟨-, -, rfl⟩ | ⟨hfull, -⟩⟩ := sellWaln_cases hx
  · simp at hclosed
  · exact ⟨plan, remaining, usdcOut, sold, hsell, hfull⟩

/-- A sell that fills the round, phase by phase. -/
lemma sellWaln_of_full {wm um : Pubkey} {maxWaln usdcOut : ℕ} {plan : SalePlan}
    {remaining : List AccountInfo} {sold : World} {r : Receipt}
    (hsell : sellIntoRound env ctx wm um maxWaln w = .ok (plan, remaining, usdcOut, sold))
    (hfull : plan.roundSizeWaln ≤ sold.state.currentRoundWaln)
    (hx : sellWaln env ctx wm um maxWaln w = .ok (w', r)) :
    ∃ settled allocated closed,
      settleWorld env ctx (env.mint wm).decimals.toNat plan.floorPriceUsdc remaining sold
        = .ok (settled, allocated, closed) ∧
      autoStart (env.mint wm).decimals.toNat settled = .ok w' ∧
      r = { walnIn := plan.walnAmount, usdcOut := usdcOut, allocated := allocated,
            roundClosed := some closed } := by
  obtain ⟨plan', remaining', usdcOut', sold', hsell', hphases⟩ := sellWaln_cases hx
  rw [hsell, Except.ok.injEq, Prod.mk.injEq, Prod.mk.injEq, Prod.mk.injEq] at hsell'
  obtain ⟨rfl, rfl, rfl, rfl⟩ := hsell'
  rcases hphases with ⟨hpart, -⟩ | ⟨-, hsettled⟩
  · omega
  · exact hsettled

/-- **A sell that fills the round** settles the world it has got to.  The pool and the account are
those of a full round, and the events are made from the entries. -/
lemma sellWaln_settles {wm um : Pubkey} {maxWaln usdcOut : ℕ} {plan : SalePlan}
    {remaining : List AccountInfo} {sold : World} {r : Receipt} (h : Reachable env w)
    (hsell : sellIntoRound env ctx wm um maxWaln w = .ok (plan, remaining, usdcOut, sold))
    (hfull : plan.roundSizeWaln ≤ sold.state.currentRoundWaln)
    (hx : sellWaln env ctx wm um maxWaln w = .ok (w', r)) :
    ∃ settled dust,
      Settles env ctx.now w sold settled w' (sold.fullEntries env ctx.now)
        (lockedUsdc sold.pool.investors) dust ∧
      settled.pool.investors = sold.fullPool env ctx.now ∧
      (sold.fullEntries env ctx.now).mapM (allocatedEvent (10 ^ sold.decimals env)
        sold.state.currentRoundFloorPrice sold.state.roundCount
        (ctx.now + sold.state.currentRoundLockPeriod)) = .ok r.allocated ∧
      r.usdcOut = usdcOut ∧
      ∃ closed, r.roundClosed = some closed ∧
        closed.usdcSpent = lockedUsdc sold.pool.investors := by
  obtain ⟨hsold, hstarted, hdecimals, hprice, -⟩ := h.sold hsell
  obtain ⟨settled, allocated, closed, hsettle, hauto, rfl⟩ := sellWaln_of_full hsell hfull hx
  obtain ⟨-, hdecimals', hinv, hidle⟩ := h.settled hsell hsettle
  rw [hdecimals'] at hauto
  rw [hdecimals, hprice] at hsettle
  obtain ⟨dust, hsettled, hpool, hevents, rfl⟩ := settleWorld_ok hsold hstarted hsettle
  exact ⟨_, dust, ⟨h.sold_keeps hsell, hsold, hstarted, hsettled,
    (autoStart_ok hauto).keeps hinv hidle⟩, hpool, hevents, rfl, _, rfl, rfl⟩

/-- A forced close settles the round it finds. -/
lemma settles_of_close {now : ℤ} {entries : List InvestorAlloc} {usdc dust : ℕ} (h : Inv env w)
    (hstarted : w.state.roundStarted = true) (hs : Settled env now entries usdc dust w w') :
    Settles env now w w w' w' entries usdc dust :=
  ⟨Keeps.refl w, h, hstarted, hs, Keeps.refl w'⟩

/-- A sell that fills a round settles it after paying the seller. -/
lemma settles_of_fill {now : ℤ} {entries : List InvestorAlloc}
    {usdc dust maxWaln walnAmount usdcOut : ℕ}
    {w₁ w₂ w₃ : World} (h : Inv env w)
    (hopen : w.state.roundStarted = true → RoundOpen (w.decimals env) w.state)
    (hopened : Opened env w w₁) (hpaid : Paid env maxWaln walnAmount usdcOut w₁ w₂)
    (hs : Settled env now entries usdc dust w₂ w₃) (hnext : AutoStarted env w₃ w') :
    Settles env now w w₂ w₃ w' entries usdc dust := by
  obtain ⟨hinv₁, -⟩ := inv_opened h hopen hopened
  obtain ⟨hinv₂, hstarted, -⟩ := inv_paid hinv₁ hpaid
  obtain ⟨hinv₃, hidle⟩ := inv_settled hinv₂ hstarted hs
  exact ⟨(hopened.keeps h).trans hpaid.keeps, hinv₂, hstarted, hs, hnext.keeps hinv₃ hidle⟩

/-- **Settling or not.**  A transaction claims, or leaves the accounts of settled rounds and the
round count alone, or settles a round. -/
theorem Effect.settles_or_keeps {i : Instruction} {r : Receipt} (h : Inv env w)
    (hopen : w.state.roundStarted = true → RoundOpen (w.decimals env) w.state)
    (he : Effect env w ctx i w' r) :
    (∃ m j, i = .ClaimWaln m j) ∨
      (w'.roundLockedWaln = w.roundLockedWaln ∧ w'.state.roundCount = w.state.roundCount) ∨
      ∃ mid settled entries usdc dust, Settles env ctx.now w mid settled w' entries usdc dust := by
  cases he with
  | Claim => exact .inl ⟨_, _, rfl⟩
  | Close hstarted _ hsettled =>
      exact .inr (.inr ⟨w, w', _, _, _, settles_of_close h hstarted hsettled⟩)
  | Sell hopened hpaid _ =>
      have hkeeps := (hopened.keeps h).trans hpaid.keeps
      exact .inr (.inl ⟨hkeeps.roundLockedWaln, hkeeps.roundCount⟩)
  | SellFull hopened hpaid _ hsettled _ hnext =>
      exact .inr (.inr ⟨_, _, _, _, _, settles_of_fill h hopen hopened hpaid hsettled hnext⟩)
  | _ => exact .inr (.inl ⟨rfl, rfl⟩)

/-- The accounts of the round in progress are not in use. -/
lemma Inv.accounts_free (h : Inv env w) :
    lookup lockedIndex w.state.roundCount w.roundLockedWaln = none ∧
      lookup recordIndex w.state.roundCount w.roundRecords = none :=
  ⟨lookup_eq_none.mpr fun a ha => Nat.ne_of_lt (h.waln.index_lt a ha),
    lookup_eq_none.mpr fun a ha => Nat.ne_of_lt (h.waln.records_lt a ha)⟩

/-- The account a settlement wrote is found under the index of the round. -/
lemma Settles.found {now : ℤ} {mid settled : World} {entries : List InvestorAlloc} {usdc dust : ℕ}
    (h : Inv env w) (hs : Settles env now w mid settled w' entries usdc dust) :
    ∃ account, w'.roundLockedWaln = w.roundLockedWaln ++ [account] ∧
      lookup lockedIndex w.state.roundCount w'.roundLockedWaln = some account ∧
      account.data.roundIndex = w.state.roundCount ∧
      account.data.unlock = now + mid.state.currentRoundLockPeriod ∧
      account.data.investors = entries := by
  obtain ⟨l, haccounts⟩ := hs.account
  refine ⟨_, haccounts, ?_, rfl, rfl, rfl⟩
  rw [haccounts]
  exact lookup_append_self rfl h.accounts_free.1

/-! ## Claims -/

/-- An account after the claim of `k`. -/
def clearedAccount (k : Pubkey) (account : Account RoundLockedWaln) : Account RoundLockedWaln :=
  { account with
    data := { account.data with
      remainingToClaim := account.data.remainingToClaim - 1
      investors := modifyFirst InvestorAlloc.investor k clearedAlloc account.data.investors } }

/-- **What a claim does.**  It pays out the entry of its signer; the account goes when that was the
last unclaimed entry, and is cleared of the entry otherwise. -/
structure Claimed (w : World) (ctx : Context) (i : ℕ) (account : Account RoundLockedWaln)
    (a : InvestorAlloc) (w' : World) (r : Receipt) : Prop where
  found : lookup lockedIndex i w.roundLockedWaln = some account
  unlock : account.data.unlock ≤ ctx.now
  entry : lookup InvestorAlloc.investor ctx.signer account.data.investors = some a
  positive : 0 < a.walnAmount
  receipt : r = { walnOut := a.walnAmount }
  state : w'.state = w.state
  pool : w'.pool = w.pool
  accounts : (unclaimed account.data.investors = 1 ∧
      w'.roundLockedWaln = w.roundLockedWaln.filter fun b => lockedIndex b ≠ i) ∨
    (1 < unclaimed account.data.investors ∧
      w'.roundLockedWaln = modifyFirst lockedIndex i (clearedAccount ctx.signer) w.roundLockedWaln)

/-- A claim is made on one entry of one account. -/
theorem Effect.claimed {m : Pubkey} {i : UInt64} {r : Receipt} (h : Inv env w)
    (he : Effect env w ctx (.ClaimWaln m i) w' r) :
    ∃ account a, Claimed w ctx i.toNat account a w' r := by
  cases he with
  | Configure hi => simp [Instruction.configures] at hi
  | ManageRent hi => simp [Instruction.managesRent] at hi
  | @Claim _ _ account idx a treasury accounts haccount hunlock hidx ha hpos hrem _ hstore =>
      have hl := h.waln.accounts account (lookup_mem haccount)
      obtain ⟨-, hentry, hcleared⟩ :=
        claimed_investors (n := account.data.remainingToClaim - 1) hl hidx ha
      refine ⟨account, a, haccount, hunlock, hentry, hpos, rfl, rfl, rfl, ?_⟩
      have hremaining := hl.remaining
      rcases storeClaimed_ok hstore with ⟨hzero, rfl⟩ | ⟨hmore, rfl⟩
      · have hzero : account.data.remainingToClaim - 1 = 0 := hzero
        exact .inl ⟨by omega, rfl⟩
      · have hmore : account.data.remainingToClaim - 1 ≠ 0 := hmore
        refine .inr ⟨by omega, modifyFirst_congr haccount ?_⟩
        rw [clearedAccount, ← hcleared]
        rfl

end Floor
