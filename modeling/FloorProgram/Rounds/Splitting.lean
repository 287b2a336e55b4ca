import FloorProgram.Accounting.Charges
import FloorProgram.Rounds.Participants
import FloorProgram.Rounds.Events

/-!
# Splitting a round into sells

A round is filled by any number of sells.  Each is paid the price of its wALN, rounded down, so what
the sellers get depends on how the round is split; what the participants are charged does not, since
that was decided when the round started.

`RoundRun` follows a round from its start and counts the sells and their payments.  A payment loses
less than a unit of USDC to rounding, a lock less than a unit as well, so `round_splitting` bounds
how far the payments and the charges of a round can be apart.
-/

namespace Floor

open Checked Loop Keyed Search ProRata

variable {env : Env} {w w₀ w' o sold : World} {ctx : Context} {k paid : ℕ}

/-! ## Counting the sells -/

/-- The instruction sells wALN. -/
def Instruction.sells : Instruction → Bool
  | .SellWaln _ _ _ => true
  | _ => false

/-- How many sells a history has for round `n`. -/
def sellsDuring (n : ℕ) (h : List (Transition.Entry World Tx)) : ℕ :=
  h.countP fun e => e.label.instr.sells && decide (e.pre.state.roundCount = n)

lemma sellsDuring_cons (n : ℕ) (e : Transition.Entry World Tx)
    (h : List (Transition.Entry World Tx)) :
    sellsDuring n (e :: h) = sellsDuring n h
      + if e.label.instr.sells ∧ e.pre.state.roundCount = n then 1 else 0 := by
  simp [sellsDuring, List.countP_cons]

/-- A sell counts for the round in progress. -/
lemma sellsDuring_sell {wm um : Pubkey} {maxWaln : UInt64} (r : Receipt)
    (h : List (Transition.Entry World Tx)) :
    sellsDuring w.state.roundCount (⟨w, ⟨ctx, .SellWaln wm um maxWaln, r⟩, w'⟩ :: h)
      = sellsDuring w.state.roundCount h + 1 := by
  simp [sellsDuring_cons, Instruction.sells]

lemma paidDuring_sell {wm um : Pubkey} {maxWaln : UInt64} (r : Receipt)
    (h : List (Transition.Entry World Tx)) :
    paidDuring w.state.roundCount (⟨w, ⟨ctx, .SellWaln wm um maxWaln, r⟩, w'⟩ :: h)
      = paidDuring w.state.roundCount h + r.usdcOut := by
  simp [sellerPayout, Nat.add_comm]

/-! ## The run of a round -/

/-- **The run of a round** that was opened in `o`: so far there were `k` sells, which were paid
`paid`, and it has got to `w`.  The round is opened by a sell, or by the automatic start after a
settlement. -/
inductive RoundRun (env : Env) (o : World) : ℕ → ℕ → World → Prop
  | inSell {w sold : World} {ctx : Context} {wm um : Pubkey} {maxWaln usdcOut : ℕ}
      {plan : SalePlan} {remaining : List AccountInfo} (hw : Reachable env w)
      (hidle : w.state.roundStarted = false) (hbegun : Begun env w o)
      (hsell : sellIntoRound env ctx wm um maxWaln w = .ok (plan, remaining, usdcOut, sold)) :
      RoundRun env o 1 usdcOut sold
  | autoStarted {w sold settled : World} {ctx : Context} {wm um : Pubkey} {maxWaln usdcOut : ℕ}
      {plan : SalePlan} {remaining : List AccountInfo} {allocated : List InvestorAllocated}
      {closed : RoundClosed} (hw : Reachable env w)
      (hsell : sellIntoRound env ctx wm um maxWaln w = .ok (plan, remaining, usdcOut, sold))
      (hfull : plan.roundSizeWaln ≤ sold.state.currentRoundWaln)
      (hsettle : settleWorld env ctx (env.mint wm).decimals.toNat plan.floorPriceUsdc remaining sold
        = .ok (settled, allocated, closed))
      (hnext : autoStart (env.mint wm).decimals.toNat settled = .ok o)
      (hstarted : o.state.roundStarted = true) : RoundRun env o 0 0 o
  | step {w w' : World} {k paid : ℕ} {tx : Tx} (h : RoundRun env o k paid w) (hw : Reachable env w)
      (hstep : Step env w tx w') (hother : tx.instr.sells = false)
      (hstarted : w'.state.roundStarted = true) : RoundRun env o k paid w'
  | sold {w sold : World} {k paid : ℕ} {ctx : Context} {wm um : Pubkey} {maxWaln usdcOut : ℕ}
      {plan : SalePlan} {remaining : List AccountInfo} (h : RoundRun env o k paid w)
      (hw : Reachable env w)
      (hsell : sellIntoRound env ctx wm um maxWaln w = .ok (plan, remaining, usdcOut, sold)) :
      RoundRun env o (k + 1) (paid + usdcOut) sold

/-- What is known of a round all through its run. -/
structure RunFacts (env : Env) (o : World) (k paid : ℕ) (w : World) : Prop where
  inv : Inv env w
  started : w.state.roundStarted = true
  size : w.state.currentRoundSizeWaln = o.state.currentRoundSizeWaln
  price : w.state.currentRoundFloorPrice = o.state.currentRoundFloorPrice
  walnMint : w.state.walnMint = o.state.walnMint
  roster : (roster w.pool.investors).Perm (roster o.pool.investors)
  /-- The locks miss the cap by less than one unit each. -/
  locked : o.state.roundCap (o.decimals env)
    < lockedUsdc o.pool.investors + (participants o.pool.investors).length
  spent : w.state.currentRoundUsdcSpent = paid
  /-- A round without sells is empty. -/
  empty : k = 0 → w.state.currentRoundWaln = 0
  /-- A payment is less than one unit below the price of what was sold. -/
  waln_lt : w.state.currentRoundWaln * o.state.currentRoundFloorPrice + k
    ≤ (paid + k) * 10 ^ o.decimals env

/-- A round that has just been opened. -/
lemma runFacts_begun (h : Inv env w) (hidle : w.state.roundStarted = false)
    (hbegun : Begun env w o) : RunFacts env o 0 0 o := by
  obtain ⟨hinv, -⟩ := inv_begun h hidle hbegun
  obtain ⟨investors, volume, locked, hstart, rfl⟩ := hbegun
  obtain ⟨hlocks, hwaln, -⟩ := h.lobby.idle hidle
  exact
    { inv := hinv
      started := rfl
      size := rfl
      price := rfl
      walnMint := rfl
      roster := .refl _
      locked := executeRoundStart_cap_lt (lockedUsdc_eq_zero.mp hlocks) hstart
      spent := rfl
      empty := fun _ => hwaln
      waln_lt := by simp [ProgramState.snapshot, hwaln] }

/-- One more seller is paid. -/
lemma RunFacts.sell {maxWaln walnAmount usdcOut : ℕ} (hf : RunFacts env o k paid w)
    (hp : Paid env maxWaln walnAmount usdcOut w sold) :
    RunFacts env o (k + 1) (paid + usdcOut) sold := by
  obtain ⟨hinv, hstarted, -⟩ := inv_paid hf.inv hp
  have hdecimals : w.decimals env = o.decimals env := by
    rw [World.decimals, hf.walnMint, World.decimals]
  have hout := Nat.lt_mul_div_succ (walnAmount * w.state.currentRoundFloorPrice)
    (scale_pos (w.decimals env))
  rw [← hp.out, hf.price, hdecimals] at hout
  rw [hp.world] at hinv ⊢
  exact
    { inv := hinv
      started := hp.started
      size := hf.size
      price := hf.price
      walnMint := hf.walnMint
      roster := hf.roster
      locked := hf.locked
      spent := by simp only [hf.spent]
      empty := fun h => absurd h (Nat.succ_ne_zero k)
      waln_lt := by
        calc (w.state.currentRoundWaln + walnAmount) * o.state.currentRoundFloorPrice + (k + 1)
            = (w.state.currentRoundWaln * o.state.currentRoundFloorPrice + k)
              + (walnAmount * o.state.currentRoundFloorPrice + 1) := by ring
          _ ≤ (paid + k) * 10 ^ o.decimals env + 10 ^ o.decimals env * (usdcOut + 1) :=
            Nat.add_le_add hf.waln_lt hout
          _ = (paid + usdcOut + (k + 1)) * 10 ^ o.decimals env := by ring }

/-- A transaction other than a sell, inside a round. -/
structure SameRound (w w' : World) : Prop where
  size : w'.state.currentRoundSizeWaln = w.state.currentRoundSizeWaln
  price : w'.state.currentRoundFloorPrice = w.state.currentRoundFloorPrice
  walnMint : w'.state.walnMint = w.state.walnMint
  waln : w'.state.currentRoundWaln = w.state.currentRoundWaln
  spent : w'.state.currentRoundUsdcSpent = w.state.currentRoundUsdcSpent
  count : w'.state.roundCount = w.state.roundCount

lemma Effect.sameRound {i : Instruction} {r : Receipt} (he : Effect env w ctx i w' r)
    (hother : i.sells = false) (hstarted : w'.state.roundStarted = true) : SameRound w w' := by
  cases he with
  | Cancel => simp at hstarted
  | Close _ _ hsettled =>
      rw [hsettled.state] at hstarted
      simp at hstarted
  | Sell | SellFull => simp [Instruction.sells] at hother
  | _ => exact ⟨rfl, rfl, rfl, rfl, rfl, rfl⟩

/-- Any other transaction inside the round. -/
lemma RunFacts.step {tx : Tx} (hf : RunFacts env o k paid w) (hw : Reachable env w)
    (hstep : Step env w tx w') (hother : tx.instr.sells = false)
    (hstarted : w'.state.roundStarted = true) : RunFacts env o k paid w' := by
  obtain ⟨hinv, hopen⟩ := reachable_inv hw
  have hsame := (hw.effect hstep).sameRound hother hstarted
  have hperm :=
    (hw.effect hstep).roster_perm hinv hopen hf.started hstarted hsame.count
  exact
    { inv := (reachable_inv (hw.step hstep)).1
      started := hstarted
      size := hsame.size.trans hf.size
      price := hsame.price.trans hf.price
      walnMint := hsame.walnMint.trans hf.walnMint
      roster := hperm.trans hf.roster
      locked := hf.locked
      spent := hsame.spent.trans hf.spent
      empty := fun h => hsame.waln.trans (hf.empty h)
      waln_lt := by
        rw [hsame.waln]
        exact hf.waln_lt }

/-- A sell into a round in progress pays its seller. -/
lemma sellIntoRound_paid {wm um : Pubkey} {maxWaln usdcOut : ℕ} {plan : SalePlan}
    {remaining : List AccountInfo} (hw : Reachable env w) (hstarted : w.state.roundStarted = true)
    (hsell : sellIntoRound env ctx wm um maxWaln w = .ok (plan, remaining, usdcOut, sold)) :
    Paid env maxWaln plan.walnAmount usdcOut w sold := by
  obtain ⟨w₁, hopened, hpaid, -⟩ := sellIntoRound_ok (reachable_inv hw).1 hsell
  rcases hopened with ⟨-, rfl⟩ | ⟨hidle, -⟩
  · exact hpaid
  · simp [hstarted] at hidle

/-- A sell that opens the round pays its seller in the opened round. -/
lemma sellIntoRound_begun {wm um : Pubkey} {maxWaln usdcOut : ℕ} {plan : SalePlan}
    {remaining : List AccountInfo} (hw : Reachable env w) (hidle : w.state.roundStarted = false)
    (hsell : sellIntoRound env ctx wm um maxWaln w = .ok (plan, remaining, usdcOut, sold)) :
    ∃ o, Begun env w o ∧ Paid env maxWaln plan.walnAmount usdcOut o sold := by
  obtain ⟨o, hopened, hpaid, -⟩ := sellIntoRound_ok (reachable_inv hw).1 hsell
  rcases hopened with ⟨hstarted, -⟩ | ⟨-, hbegun⟩
  · simp [hidle] at hstarted
  · exact ⟨o, hbegun, hpaid⟩

lemma Begun.unique {o' : World} (h : Begun env w o) (h' : Begun env w o') : o = o' := by
  obtain ⟨investors, volume, locked, hstart, rfl⟩ := h
  obtain ⟨investors', volume', locked', hstart', rfl⟩ := h'
  simp only [hstart, Prod.mk.injEq, Except.ok.injEq] at hstart'
  obtain ⟨rfl, rfl, rfl⟩ := hstart'
  rfl

/-- **The facts hold all through the run.** -/
theorem RoundRun.facts (h : RoundRun env o k paid w) : RunFacts env o k paid w := by
  induction h with
  | inSell hw hidle hbegun hsell =>
      obtain ⟨o', hbegun', hpaid⟩ := sellIntoRound_begun hw hidle hsell
      obtain rfl := hbegun.unique hbegun'
      have hf := (runFacts_begun (reachable_inv hw).1 hidle hbegun).sell hpaid
      rwa [Nat.zero_add, Nat.zero_add] at hf
  | autoStarted hw hsell _ hsettle hnext hstarted =>
      obtain ⟨-, hdecimals, hinv, hidle⟩ := hw.settled hsell hsettle
      rw [hdecimals] at hnext
      rcases autoStart_ok hnext with hbegun | ⟨rfl, -⟩
      · exact runFacts_begun hinv hidle hbegun
      · exact absurd (hidle.symm.trans hstarted) (by decide)
  | step _ hw hstep hother hstarted ih => exact ih.step hw hstep hother hstarted
  | sold _ hw hsell ih => exact ih.sell (sellIntoRound_paid hw ih.started hsell)

/-! ## From histories to runs -/

/-- Every sell pays its seller something. -/
lemma sellsDuring_le {h : List (Transition.Entry World Tx)} (hinit : Initial env w₀)
    (hrun : History env w₀ h w) (n : ℕ) : sellsDuring n h ≤ paidDuring n h := by
  refine Transition.Trace.invariant (P := fun h _ => sellsDuring n h ≤ paidDuring n h) le_rfl ?_
    hrun
  intro h w tx w' htrace ih hstep
  have hreach := History.reachable htrace hinit
  obtain ⟨ctx, i, r⟩ := tx
  have he : Effect env w ctx i w' r := hreach.effect hstep
  have hpays : i.sells = true → w.state.roundCount = n →
      0 < sellerPayout n ⟨w, ⟨ctx, i, r⟩, w'⟩ := by
    intro hsells hn
    cases he with
    | Configure hi | ManageRent hi =>
        cases i with
        | SellWaln => simp [Instruction.configures, Instruction.managesRent] at hi
        | _ => simp [Instruction.sells] at hsells
    | Sell _ hpaid | SellFull _ hpaid => simpa [sellerPayout, hn] using hpaid.out_pos
    | _ => simp [Instruction.sells] at hsells
  rw [sellsDuring_cons, paidDuring_cons]
  split_ifs with hcount
  · have := hpays hcount.1 hcount.2
    omega
  · omega

section History

variable {h : List (Transition.Entry World Tx)} {wm um : Pubkey} {maxWaln usdcOut : ℕ}
  {plan : SalePlan} {remaining : List AccountInfo}

/-- A sell carries the run on, or begins one. -/
lemma roundRun_sold (hinit : Initial env w₀) (hrun : History env w₀ h w)
    (hbefore : w.state.roundStarted = true → ∃ o, RoundRun env o
      (sellsDuring w.state.roundCount h) (paidDuring w.state.roundCount h) w)
    (hsell : sellIntoRound env ctx wm um maxWaln w = .ok (plan, remaining, usdcOut, sold)) :
    ∃ o, RoundRun env o (sellsDuring w.state.roundCount h + 1)
      (paidDuring w.state.roundCount h + usdcOut) sold := by
  have hreach := hrun.reachable hinit
  cases hstarted : w.state.roundStarted with
  | true =>
      obtain ⟨o, ho⟩ := hbefore hstarted
      exact ⟨o, ho.sold hreach hsell⟩
  | false =>
      obtain ⟨o, hbegun, -⟩ := sellIntoRound_begun hreach hstarted hsell
      -- nobody was paid for a round that is not there
      have hpaid : paidDuring w.state.roundCount h = 0 :=
        (paidDuring_eq hinit hrun).1.trans ((reachable_inv hreach).1.lobby.idle hstarted).2.2
      have hsells := sellsDuring_le hinit hrun w.state.roundCount
      rw [hpaid, Nat.le_zero] at hsells
      rw [hpaid, hsells, Nat.zero_add, Nat.zero_add]
      exact ⟨o, .inSell hreach hstarted hbegun hsell⟩

/-- **Every round in progress has a run**, with the sells and the payments of the history. -/
theorem History.roundRun (hinit : Initial env w₀) (hrun : History env w₀ h w)
    (hstarted : w.state.roundStarted = true) :
    ∃ o, RoundRun env o (sellsDuring w.state.roundCount h) (paidDuring w.state.roundCount h) w := by
  revert hstarted
  refine Transition.Trace.invariant (P := fun h w => w.state.roundStarted = true →
    ∃ o, RoundRun env o (sellsDuring w.state.roundCount h) (paidDuring w.state.roundCount h) w)
    ?_ ?_ hrun
  · intro hstarted
    exact absurd ((inv_initial hinit).2.symm.trans hstarted) (by decide)
  intro h w tx w' htrace ih hstep hstarted
  have hreach := History.reachable htrace hinit
  have hnow : History env w₀ (⟨w, tx, w'⟩ :: h) w' := .cons htrace hstep
  obtain ⟨ctx, i, r⟩ := tx
  cases hsells : i.sells with
  | false =>
      have he : Effect env w ctx i w' r := hreach.effect hstep
      have hsame := he.sameRound hsells hstarted
      have hcount := hsame.count
      have hbefore : w.state.roundStarted = true := by
        rcases he.same_round_or_sell hstarted with ⟨hbefore, -⟩ | ⟨_, _, _, rfl⟩
        · exact hbefore
        · simp [Instruction.sells] at hsells
      obtain ⟨o, ho⟩ := ih hbefore
      refine ⟨o, ?_⟩
      have hpaid : paidDuring w'.state.roundCount (⟨w, ⟨ctx, i, r⟩, w'⟩ :: h)
          = paidDuring w.state.roundCount h := by
        rw [(paidDuring_eq hinit hnow).1, hsame.spent, (paidDuring_eq hinit htrace).1]
      rw [hpaid, sellsDuring_cons, hcount, hsells]
      exact ho.step hreach hstep hsells hstarted
  | true =>
      cases i with
      | SellWaln wm um maxWaln =>
          have hx : sellWaln env ctx wm um maxWaln.toNat w = .ok (w', r) := hstep
          obtain ⟨plan, remaining, usdcOut, sold, hsell, hphases⟩ := sellWaln_cases hx
          rcases hphases with ⟨-, rfl, rfl⟩ | ⟨hfull, settled, _, _, hsettle, hnext, rfl⟩
          · have hcount := (hreach.sold_keeps hsell).roundCount
            obtain ⟨o, ho⟩ := roundRun_sold hinit htrace ih hsell
            refine ⟨o, ?_⟩
            rw [hcount, sellsDuring_sell, paidDuring_sell]
            exact ho
          · have ho := RoundRun.autoStarted hreach hsell hfull hsettle hnext hstarted
            have hpaid := (paidDuring_eq hinit hnow).1.trans ho.facts.spent
            have hle := sellsDuring_le hinit hnow w'.state.roundCount
            rw [hpaid, Nat.le_zero] at hle
            rw [hpaid, hle]
            exact ⟨w', ho⟩
      | _ => simp [Instruction.sells] at hsells

end History

/-! ## A completed round -/

/-- A sell that leads from `w` to `w'` completes the round that was opened in `o`.  It is the `k`-th
of the round, and together they were paid `paid`.  It has got to `sold` when it settles. -/
structure Completes (env : Env) (o : World) (k paid : ℕ) (w sold w' : World)
    (closed : RoundClosed) : Prop where
  reachable : Reachable env w
  run : RoundRun env o k paid sold
  sell : ∃ ctx wm um maxWaln plan remaining usdcOut r,
    sellIntoRound env ctx wm um maxWaln w = .ok (plan, remaining, usdcOut, sold) ∧
    plan.roundSizeWaln ≤ sold.state.currentRoundWaln ∧
    sellWaln env ctx wm um maxWaln w = .ok (w', r) ∧ r.roundClosed = some closed

/-- How far the payments `paid` of `k` sells and the charges `charged` to `n` participants can be
from the cap, and from each other. -/
structure SplitBounds (cap k n paid charged : ℕ) : Prop where
  sells : 1 ≤ k
  paid_le : paid ≤ cap
  paid_gt : cap < paid + k
  charged_le : charged ≤ cap
  charged_gt : cap < charged + n
  drift_gt : -(n : ℤ) < (charged : ℤ) - paid
  drift_lt : (charged : ℤ) - paid < k

/-- What a transaction charges an investor. -/
def chargedTo (k : Pubkey) (w w' : World) : ℕ :=
  committedOf k w'.pool.investors - committedOf k w.pool.investors

/-- Two completed rounds charge the same, and their settlement loops allocate the same before any
dust. -/
structure SameSettlement (env : Env) (w sold w' v soldv v' : World) : Prop where
  charges : ∀ k, chargedTo k w w' = chargedTo k v v'
  base : ∃ l l' t t',
    forMut (settleRecord (10 ^ sold.decimals env) sold.state.currentRoundFloorPrice)
      SettleTotals.zero sold.pool.investors = (l, .ok t) ∧
    forMut (settleRecord (10 ^ soldv.decimals env) soldv.state.currentRoundFloorPrice)
      SettleTotals.zero soldv.pool.investors = (l', .ok t') ∧
    t.participantData.Perm t'.participantData

lemma RunFacts.decimals_eq (hf : RunFacts env o k paid w) : w.decimals env = o.decimals env := by
  rw [World.decimals, hf.walnMint, World.decimals]

/-! ### What the roster says -/

section Roster

variable {l l' : List InvestorRecord}

lemma lockedUsdc_eq_roster (l : List InvestorRecord) :
    lockedUsdc l = ((roster l).map fun e => e.2.1).sum := by
  rw [← sum_lock_participants, roster, List.map_map]
  rfl

lemma nodupKeys_roster (hl : NodupKeys byInvestor l) : NodupKeys Prod.fst (roster l) := by
  have hkeys : (roster l).map Prod.fst = (participants l).map byInvestor := by
    rw [roster, List.map_map]
    rfl
  rw [NodupKeys, hkeys]
  exact List.Nodup.sublist (List.filter_sublist.map byInvestor) hl

lemma lockOf_eq_roster {k : Pubkey} (hl : NodupKeys byInvestor l) :
    lockOf k l = valueOf Prod.fst (fun e => e.2.1) k (roster l) := by
  by_cases hk : ∃ r ∈ participants l, r.investor = k
  · obtain ⟨r, hr, rfl⟩ := hk
    have hlock : lockOf r.investor l = r.usdcLockedCurrentRound :=
      valueOf_of_mem hl (mem_participants.mp hr).1 rfl
    have hentry : valueOf Prod.fst (fun e => e.2.1) r.investor (roster l)
        = (rosterEntry r).2.1 :=
      valueOf_of_mem (nodupKeys_roster hl) (List.mem_map_of_mem hr) rfl
    rw [hlock, hentry, rosterEntry]
  · have hk : ∀ r ∈ participants l, r.investor ≠ k := fun r hr hrk => hk ⟨r, hr, hrk⟩
    have hroster : valueOf Prod.fst (fun e => e.2.1) k (roster l) = 0 := by
      refine valueOf_of_forall_ne ?_
      intro e he
      obtain ⟨r, hr, rfl⟩ := List.mem_map.mp he
      exact hk r hr
    rw [hroster, lockOf, valueOf]
    cases hr : lookup byInvestor k l with
    | none => rfl
    | some r =>
        by_contra hpos
        exact hk r (mem_participants.mpr ⟨lookup_mem hr, Nat.pos_of_ne_zero hpos⟩) (lookup_key hr)

/-- The allocations before any dust are read off the roster. -/
lemma map_baseEntry_eq_roster (s p : ℕ) (l : List InvestorRecord) :
    (participants l).map (baseEntry s p)
      = (roster l).map fun e => ⟨e.1, e.2.1 * s / p⟩ := by
  rw [roster, List.map_map]
  rfl

end Roster

/-! ### The bounds -/

/-- The settlement of a completed round. -/
lemma Completes.settles {closed : RoundClosed} (hc : Completes env o k paid w sold w' closed) :
    ∃ now settled dust,
      Settles env now w sold settled w' (sold.fullEntries env now) (lockedUsdc sold.pool.investors)
        dust ∧
      settled.pool.investors = sold.fullPool env now ∧
      closed.usdcSpent = lockedUsdc sold.pool.investors ∧
      sold.state.currentRoundSizeWaln ≤ sold.state.currentRoundWaln := by
  obtain ⟨ctx, wm, um, maxWaln, plan, remaining, usdcOut, r, hsell, hfull, hx, hclosed⟩ := hc.sell
  obtain ⟨-, -, -, -, hsize⟩ := hc.reachable.sold hsell
  obtain ⟨settled, dust, hs, hpool, -, -, closed', hclosed', husdc⟩ :=
    sellWaln_settles hc.reachable hsell hfull hx
  rw [hclosed, Option.some.injEq] at hclosed'
  exact ⟨ctx.now, settled, dust, hs, hpool, hclosed' ▸ husdc, hsize ▸ hfull⟩

/-- What a completing sell charges an investor is the lock that the start of the round gave it. -/
lemma Completes.charged {closed : RoundClosed} (hc : Completes env o k paid w sold w' closed) :
    Charges w w' closed.usdcSpent ∧
      ∀ key, chargedTo key w w'
        = valueOf Prod.fst (fun e => e.2.1) key (roster o.pool.investors) := by
  have hf := hc.run.facts
  obtain ⟨now, settled, dust, hs, hpool, husdc, -⟩ := hc.settles
  refine ⟨husdc ▸ hs.charges, ?_⟩
  intro key
  rw [chargedTo, hs.committedOf hpool, Nat.add_sub_cancel_left, lockOf_eq_roster hf.inv.keys]
  exact valueOf_perm (nodupKeys_roster hf.inv.keys) hf.roster

lemma settleWorld_loop {d p : ℕ} {remaining : List AccountInfo}
    {x : World × List InvestorAllocated × RoundClosed}
    (h : settleWorld env ctx d p remaining w = .ok x) :
    ∃ l t, forMut (settleRecord (10 ^ d) p) SettleTotals.zero w.pool.investors = (l, .ok t) := by
  unfold settleWorld at h
  split at h
  · simp only [bind_eq_ok, Prod.exists, walnScale_eq_ok, settlePool, committed_eq_ok] at h
    obtain ⟨_, -, _, -, _, -, _, ⟨-, rfl⟩, _, _, ⟨l, t, ⟨hl, ht⟩, -⟩, -⟩ := h
    exact ⟨l, t, Prod.ext hl ht⟩
  · simp at h

/-- What the settlement loop of a completed round allocates is decided when the round starts. -/
lemma Completes.base {closed : RoundClosed} (hc : Completes env o k paid w sold w' closed) :
    ∃ l t, forMut (settleRecord (10 ^ sold.decimals env) sold.state.currentRoundFloorPrice)
        SettleTotals.zero sold.pool.investors = (l, .ok t) ∧
      t.participantData.Perm ((roster o.pool.investors).map fun e =>
        ⟨e.1, e.2.1 * 10 ^ o.decimals env / o.state.currentRoundFloorPrice⟩) := by
  have hf := hc.run.facts
  obtain ⟨ctx, wm, um, maxWaln, plan, remaining, usdcOut, r, hsell, hfull, hx, -⟩ := hc.sell
  obtain ⟨-, -, hdecimals, hprice, -⟩ := hc.reachable.sold hsell
  obtain ⟨settled, _, _, hsettle, -⟩ := sellWaln_of_full hsell hfull hx
  rw [hdecimals, hprice] at hsettle
  obtain ⟨l, t, hloop⟩ := settleWorld_loop hsettle
  obtain ⟨-, -, -, -, hdata⟩ := forMut_settleRecord hloop
  refine ⟨l, t, hloop, ?_⟩
  rw [hdata, map_baseEntry_eq_roster, hf.decimals_eq, hf.price]
  exact hf.roster.map _

/-- A full round had a seller. -/
lemma RunFacts.sells_pos (hf : RunFacts env o k paid w)
    (hfull : w.state.currentRoundWaln = o.state.currentRoundSizeWaln) : 1 ≤ k := by
  by_contra hk
  have hempty := hf.empty (by omega)
  have hmin := (hf.inv.round hf.started).size_min
  rw [hf.size, ← hfull, hempty] at hmin
  exact absurd hmin (by decide)

/-- The sellers of a full round get the cap, less than one unit per sell apart. -/
lemma RunFacts.paid_bounds (hf : RunFacts env o k paid w)
    (hfull : w.state.currentRoundWaln = o.state.currentRoundSizeWaln) :
    paid ≤ o.state.roundCap (o.decimals env) ∧
      o.state.roundCap (o.decimals env) < paid + k := by
  have hscale := scale_pos (o.decimals env)
  have hspent := (hf.inv.round hf.started).spent_le
  rw [hf.spent, hfull, hf.price, hf.decimals_eq] at hspent
  have hwaln := hf.waln_lt
  rw [hfull] at hwaln
  have hk := hf.sells_pos hfull
  exact ⟨(Nat.le_div_iff_mul_le hscale).mpr hspent,
    (Nat.div_lt_iff_lt_mul hscale).mpr (by omega)⟩

/-- The participants have locked the cap, less than one unit each apart. -/
lemma RunFacts.locked_bounds (hf : RunFacts env o k paid w) :
    lockedUsdc w.pool.investors ≤ o.state.roundCap (o.decimals env) ∧
      o.state.roundCap (o.decimals env)
        < lockedUsdc w.pool.investors + (participants w.pool.investors).length := by
  have hle := (hf.inv.round hf.started).locked_le
  rw [ProgramState.roundCap, hf.size, hf.price, hf.decimals_eq] at hle
  have hlocked : lockedUsdc w.pool.investors = lockedUsdc o.pool.investors := by
    rw [lockedUsdc_eq_roster, lockedUsdc_eq_roster]
    exact (hf.roster.map _).sum_eq
  have hcount := hf.roster.length_eq
  rw [Floor.roster, Floor.roster, List.length_map, List.length_map] at hcount
  refine ⟨hle, ?_⟩
  rw [hlocked, hcount]
  exact hf.locked

/-- **The bounds of a completed round.** -/
lemma Completes.bounds {closed : RoundClosed} (hc : Completes env o k paid w sold w' closed) :
    SplitBounds (o.state.roundCap (o.decimals env)) k (participants sold.pool.investors).length paid
      closed.usdcSpent := by
  have hf := hc.run.facts
  obtain ⟨now, settled, dust, -, -, husdc, hle⟩ := hc.settles
  have hfull : sold.state.currentRoundWaln = o.state.currentRoundSizeWaln := by
    rw [← hf.size]
    exact le_antisymm (hf.inv.round hf.started).waln_le hle
  obtain ⟨hpaid_le, hpaid_gt⟩ := hf.paid_bounds hfull
  obtain ⟨hlocked_le, hlocked_gt⟩ := hf.locked_bounds
  rw [husdc]
  exact ⟨hf.sells_pos hfull, hpaid_le, hpaid_gt, hlocked_le, hlocked_gt, by omega, by omega⟩

/-- **Completed rounds that were opened alike are settled alike.** -/
lemma Completes.sameSettlement {k' paid' : ℕ} {v soldv v' : World} {closed closed' : RoundClosed}
    (hc : Completes env o k paid w sold w' closed)
    (hc' : Completes env o k' paid' v soldv v' closed') :
    SameSettlement env w sold w' v soldv v' := by
  obtain ⟨-, hcharge⟩ := hc.charged
  obtain ⟨-, hcharge'⟩ := hc'.charged
  obtain ⟨l, t, hloop, hbase⟩ := hc.base
  obtain ⟨l', t', hloop', hbase'⟩ := hc'.base
  refine ⟨?_, l, l', t, t', hloop, hloop', hbase.trans hbase'.symm⟩
  intro key
  rw [hcharge, hcharge']

/-- The terms of the round a sell goes into. -/
lemma Reachable.sold_terms {wm um : Pubkey} {maxWaln usdcOut : ℕ} {plan : SalePlan}
    {remaining : List AccountInfo} (h : Reachable env w)
    (hsell : sellIntoRound env ctx wm um maxWaln w = .ok (plan, remaining, usdcOut, sold)) :
    sold.state.roundCap (sold.decimals env)
      = w.state.effectiveSize * w.state.effectivePrice / 10 ^ w.decimals env := by
  obtain ⟨hinv, -⟩ := reachable_inv h
  obtain ⟨w₁, hopened, hpaid, -⟩ := sellIntoRound_ok hinv hsell
  obtain ⟨hsize, -⟩ := hopened.effective hinv
  have hkeeps := h.sold_keeps hsell
  rw [ProgramState.roundCap, (h.sold_round hsell).2, World.decimals, hkeeps.walnMint,
    World.decimals, ← hsize, hpaid.world]

/-- **Splitting a round into sells.**  Let a sell complete the round in progress, after any history.
The payments to all its sellers and the charges to its participants are as close to the cap and to
each other as `SplitBounds` says, where the sells and payments are those of the history.  In any
other way to complete the round, from the world it was opened in, the same is charged to every
investor, and the settlement allocates the same wALN before any dust. -/
theorem round_splitting {h : List (Transition.Entry World Tx)} {wm um : Pubkey} {maxWaln : UInt64}
    {r : Receipt} {closed : RoundClosed} (hinit : Initial env w₀) (hrun : History env w₀ h w)
    (hstep : Step env w ⟨ctx, .SellWaln wm um maxWaln, r⟩ w')
    (hclosed : r.roundClosed = some closed) :
    let n := w.state.roundCount
    let history := ⟨w, ⟨ctx, .SellWaln wm um maxWaln, r⟩, w'⟩ :: h
    SplitBounds (w.state.effectiveSize * w.state.effectivePrice / 10 ^ w.decimals env)
      (sellsDuring n history) (participants (w.roundPool env)).length (paidDuring n history)
      closed.usdcSpent ∧
    Charges w w' closed.usdcSpent ∧
    ∃ o sold, Completes env o (sellsDuring n history) (paidDuring n history) w sold w' closed ∧
      ∀ k paid v soldv v' closedv, Completes env o k paid v soldv v' closedv →
        SameSettlement env w sold w' v soldv v' := by
  have hreach := hrun.reachable hinit
  have hx : sellWaln env ctx wm um maxWaln.toNat w = .ok (w', r) := hstep
  obtain ⟨plan, remaining, usdcOut, sold, hsell, hfull⟩ := sellWaln_of_closed hx hclosed
  obtain ⟨_, _, -, -, -, hout, -⟩ := sellWaln_settles hreach hsell hfull hx
  obtain ⟨o, ho⟩ := roundRun_sold hinit hrun (hrun.roundRun hinit) hsell
  intro n history
  have hc : Completes env o (sellsDuring n history) (paidDuring n history) w sold w' closed := by
    refine ⟨hreach, ?_, ctx, wm, um, maxWaln.toNat, plan, remaining, usdcOut, r, hsell, hfull, hx,
      hclosed⟩
    rw [sellsDuring_sell, paidDuring_sell, hout]
    exact ho
  have hbounds := hc.bounds
  have hf := ho.facts
  have hcap : o.state.roundCap (o.decimals env)
      = w.state.effectiveSize * w.state.effectivePrice / 10 ^ w.decimals env := by
    rw [← hreach.sold_terms hsell, ProgramState.roundCap, ProgramState.roundCap, hf.size, hf.price,
      hf.decimals_eq]
  rw [hcap, (hreach.sold_round hsell).1] at hbounds
  exact ⟨hbounds, hc.charged.1, o, sold, hc, fun _ _ _ _ _ _ hc' => hc.sameSettlement hc'⟩

/-- A round of five wALN at the price of three is sold in two parts, and each is paid half a unit of
USDC less than its price: the sellers get fourteen units, and the participants pay fifteen. -/
theorem round_splitting_two_sells :
    ∃ w₀ h w r w' closed, Initial (sampleEnv 9) w₀ ∧ History (sampleEnv 9) w₀ h w ∧
      Step (sampleEnv 9) w ⟨signedBy 99 1 (roundAccounts 0), .SellWaln 11 10 3500000000, r⟩ w' ∧
      r.roundClosed = some closed ∧ SplitBounds 15 2 3 14 15 ∧ Charges w w' 15 := by
  obtain ⟨w₀, h, w, hinit, hrun, hw⟩ := exists_sample_history 9 3 5000000000
    (threeInvestors 10 20 ++ [sell 0 1500000000])
    (fun _ h w => decide (w.state.roundCount = 0 ∧ sellsDuring 0 h = 1 ∧ paidDuring 0 h = 4 ∧
        w.state.effectiveSize * w.state.effectivePrice / 10 ^ w.decimals (sampleEnv 9) = 15 ∧
        (participants (w.roundPool (sampleEnv 9))).length = 3) &&
      isOkAnd (fun x : World × Receipt => decide (x.2.usdcOut = 10 ∧
          x.2.roundClosed.map RoundClosed.usdcSpent = some 15))
        (sellWaln (sampleEnv 9) (signedBy 99 1 (roundAccounts 0)) 11 10
          (3500000000 : UInt64).toNat w))
    (by decide +kernel)
  simp only [Bool.and_eq_true, decide_eq_true_eq, isOkAnd_eq_true, Prod.exists,
    Option.map_eq_some_iff] at hw
  obtain ⟨⟨hcount, hsells, hpaid, hcap, hlocks⟩, w', r, hx, hout, closed, hclosed, husdc⟩ := hw
  have hstep : Step (sampleEnv 9) w
      ⟨signedBy 99 1 (roundAccounts 0), .SellWaln 11 10 3500000000, r⟩ w' := hx
  obtain ⟨hbounds, hcharges, -⟩ := round_splitting hinit hrun hstep hclosed
  rw [sellsDuring_sell, paidDuring_sell, hcount, hsells, hpaid, hout, hcap, hlocks, husdc]
    at hbounds
  rw [husdc] at hcharges
  exact ⟨w₀, h, w, r, w', closed, hinit, hrun, hstep, hclosed, hbounds, hcharges⟩

end Floor
