import FloorProgram.Accounting.Solvency

/-!
# Is what is charged what was paid?

The sellers of a round are paid while it runs, and its participants are charged when it is settled.
A forced close charges `current_round_usdc_spent`, which is the sum of the payments.  A full round
charges the locks, so there the two agree exactly when the payments come to the locks
(`FillExact`): rounding of the locks makes the charge too small, rounding of the payments makes it
too large.
-/

namespace Floor

open Checked Loop Keyed Search

variable {env : Env} {w w₀ w' : World} {ctx : Context}

/-- What a transaction paid to a seller of round `n`. -/
def sellerPayout (n : ℕ) (e : Transition.Entry World Tx) : ℕ :=
  match e.label.instr with
  | .SellWaln _ _ _ => if e.pre.state.roundCount = n then e.label.receipt.usdcOut else 0
  | _ => 0

/-- What the sellers of round `n` were paid. -/
def paidDuring (n : ℕ) (h : List (Transition.Entry World Tx)) : ℕ := (h.map (sellerPayout n)).sum

/-- The newest entry adds its payment. -/
@[simp] lemma paidDuring_cons (n : ℕ) (e : Transition.Entry World Tx)
    (h : List (Transition.Entry World Tx)) :
    paidDuring n (e :: h) = sellerPayout n e + paidDuring n h := List.sum_cons

/-- A sell outside a round pays nothing during it. -/
lemma sellerPayout_of_ne {n : ℕ} {e : Transition.Entry World Tx}
    (h : e.pre.state.roundCount ≠ n) : sellerPayout n e = 0 := by
  unfold sellerPayout
  split
  · exact if_neg h
  · rfl

/-- Opening a round leaves what it has paid, nothing. -/
lemma Opened.spent (h : Inv env w) (ho : Opened env w w') :
    w'.state.currentRoundUsdcSpent = w.state.currentRoundUsdcSpent := by
  rcases ho with ⟨-, rfl⟩ | ⟨hidle, _, _, _, -, rfl⟩
  · rfl
  · exact (h.lobby.idle hidle).2.2.symm

/-- Paying a seller adds the payment. -/
lemma Paid.spent {maxWaln walnAmount usdcOut : ℕ} (hp : Paid env maxWaln walnAmount usdcOut w w') :
    w'.state.currentRoundUsdcSpent = w.state.currentRoundUsdcSpent + usdcOut := by
  rw [hp.world]

/-- An automatic start has paid nothing. -/
lemma AutoStarted.spent (ha : AutoStarted env w w') (h : w.state.currentRoundUsdcSpent = 0) :
    w'.state.currentRoundUsdcSpent = 0 := by
  rcases ha with ⟨_, _, _, -, rfl⟩ | ⟨rfl, -⟩
  · rfl
  · exact h

/-- A round nothing was sold into has paid nothing. -/
lemma RoundInv.spent_eq_zero {d : ℕ} {s : ProgramState} {investors : List InvestorRecord}
    (h : RoundInv d s investors) (hempty : s.currentRoundWaln = 0) :
    s.currentRoundUsdcSpent = 0 := by
  have := h.spent_le
  rw [hempty, Nat.zero_mul] at this
  exact (Nat.mul_eq_zero.mp (Nat.le_zero.mp this)).resolve_right (scale_pos d).ne'

/-- **The counter of a round.**  A transaction adds what it paid, or settles the round. -/
lemma Effect.spent {i : Instruction} {r : Receipt} (h : Inv env w)
    (hopen : w.state.roundStarted = true → RoundOpen (w.decimals env) w.state)
    (he : Effect env w ctx i w' r) :
    (w'.state.roundCount = w.state.roundCount ∧
      w'.state.currentRoundUsdcSpent = w.state.currentRoundUsdcSpent
        + sellerPayout w.state.roundCount ⟨w, ⟨ctx, i, r⟩, w'⟩) ∨
    (w'.state.roundCount = w.state.roundCount + 1 ∧ w'.state.currentRoundUsdcSpent = 0) := by
  cases he with
  | Configure hi | ManageRent hi =>
      left
      cases i with
      | SellWaln => simp [Instruction.configures, Instruction.managesRent] at hi
      | _ => exact ⟨rfl, rfl⟩
  | Cancel hstarted hempty =>
      exact .inl ⟨rfl, ((h.round hstarted).spent_eq_zero hempty).symm⟩
  | Close hstarted _ hsettled =>
      right
      rw [hsettled.state]
      exact ⟨rfl, rfl⟩
  | Sell hopened hpaid _ =>
      left
      refine ⟨((hopened.keeps h).trans hpaid.keeps).roundCount, ?_⟩
      rw [hpaid.spent, hopened.spent h]
      simp [sellerPayout]
  | SellFull hopened hpaid _ hsettled _ hnext =>
      right
      refine ⟨(settles_of_fill h hopen hopened hpaid hsettled hnext).roundCount,
        hnext.spent ?_⟩
      rw [hsettled.state]
  | _ => exact .inl ⟨rfl, rfl⟩

/-- **The counter is the payments**: `current_round_usdc_spent` is what the sellers of the round in
progress were paid, and nobody was paid for a later round. -/
theorem paidDuring_eq {h : List (Transition.Entry World Tx)} (hinit : Initial env w₀)
    (hrun : History env w₀ h w) :
    paidDuring w.state.roundCount h = w.state.currentRoundUsdcSpent ∧
      ∀ n, w.state.roundCount < n → paidDuring n h = 0 := by
  refine Transition.Trace.invariant (P := fun h w =>
    paidDuring w.state.roundCount h = w.state.currentRoundUsdcSpent ∧
      ∀ n, w.state.roundCount < n → paidDuring n h = 0) ?_ ?_ hrun
  · obtain ⟨hinv, hidle⟩ := inv_initial hinit
    exact ⟨(hinv.lobby.idle hidle).2.2.symm, fun _ _ => rfl⟩
  · intro h w tx w' htrace ⟨hpaid, hlater⟩ hstep
    have hreach := History.reachable htrace hinit
    obtain ⟨hinv, hopen⟩ := reachable_inv hreach
    have hother : ∀ n, w.state.roundCount < n → paidDuring n (⟨w, tx, w'⟩ :: h) = 0 := by
      intro n hn
      rw [paidDuring_cons, hlater n hn, sellerPayout_of_ne (Nat.ne_of_lt hn)]
    rcases (hreach.effect hstep).spent hinv hopen with ⟨hcount, hspent⟩ | ⟨hcount, hspent⟩
    · rw [hcount]
      refine ⟨?_, hother⟩
      rw [paidDuring_cons, hpaid, hspent, Nat.add_comm]
    · rw [hcount, hspent]
      exact ⟨hother _ (Nat.lt_succ_self _), fun n hn => hother n (by omega)⟩

/-! ## The charge -/

/-- The settlement took `paid` from the lobby, committed it, and recorded it. -/
structure Charges (w w' : World) (paid : ℕ) : Prop where
  lobby : w.state.totalUsdcInLobby = w'.state.totalUsdcInLobby + paid
  committed : (w'.pool.investors.map fun r => r.usdcCommitted).sum
    = (w.pool.investors.map fun r => r.usdcCommitted).sum + paid
  record : ∃ record, w'.roundRecords = w.roundRecords ++ [record] ∧
    record.data.roundIndex = w.state.roundCount ∧ record.data.usdcSpent = paid

/-- Locking and unlocking leave the lifetime totals alone. -/
lemma committedUsdc_of_moved {investors investors' : List InvestorRecord}
    (h : List.Forall₂ Moved investors investors') :
    committedUsdc investors' = committedUsdc investors :=
  congrArg List.sum (map_eq_of_forall₂ h fun _ _ hm => hm.usdcCommitted)

/-- The three figures of a settlement agree. -/
lemma Settles.charges {now : ℤ} {mid settled : World} {entries : List InvestorAlloc}
    {usdc dust : ℕ} (hs : Settles env now w mid settled w' entries usdc dust) :
    Charges w w' usdc := by
  have hlobby : w.state.totalUsdcInLobby = w'.state.totalUsdcInLobby + usdc := by
    have hpool := hs.settle.settlement.poolUsdc_eq
    have hmid := hs.inv.lobby.lobby
    rw [hs.after.totalUsdcInLobby, hs.settle.state, ← hs.before.totalUsdcInLobby]
    simp only
    omega
  have hcommitted : committedUsdc w'.pool.investors = committedUsdc w.pool.investors + usdc := by
    rw [committedUsdc_of_moved hs.after.pool, hs.settle.settlement.charged,
      committedUsdc_of_moved hs.before.pool]
  obtain ⟨l, volume, hrecord⟩ := hs.record
  exact ⟨hlobby, hcommitted, _, hrecord, rfl, rfl⟩

/-- A settlement charges what it says, and no other amount. -/
lemma Settles.charges_iff {now : ℤ} {mid settled : World} {entries : List InvestorAlloc}
    {usdc dust paid : ℕ} (hs : Settles env now w mid settled w' entries usdc dust) :
    Charges w w' paid ↔ paid = usdc := by
  refine ⟨fun h => ?_, fun h => h ▸ hs.charges⟩
  have := h.lobby
  have := hs.charges.lobby
  omega

/-- A forced close always charges what was paid; a sell that fills the round does so if what it and
the sells before it are paid comes to the locks. -/
def ChargesExactly (env : Env) (w : World) : Instruction → Prop
  | .SellWaln _ _ _ => FillExact env w
  | _ => True

/-- **Charged equals paid**, exactly when the payments come to the locks. -/
theorem charged_eq_paid_iff {h : List (Transition.Entry World Tx)} {tx : Tx}
    (hinit : Initial env w₀) (hrun : History env w₀ h w) (hstep : Step env w tx w')
    (hsettles : w'.state.roundCount ≠ w.state.roundCount) :
    Charges w w' (paidDuring w.state.roundCount (⟨w, tx, w'⟩ :: h)) ↔
      ChargesExactly env w tx.instr := by
  have hreach := hrun.reachable hinit
  obtain ⟨hinv, hopen⟩ := reachable_inv hreach
  obtain ⟨ctx, i, r⟩ := tx
  rw [paidDuring_cons, (paidDuring_eq hinit hrun).1]
  have he : Effect env w ctx i w' r := hreach.effect hstep
  cases he with
  | Close hstarted _ hsettled =>
      rw [(settles_of_close hinv hstarted hsettled).charges_iff]
      simp [sellerPayout, ChargesExactly]
  | Sell hopened hpaid _ =>
      exact absurd ((hopened.keeps hinv).trans hpaid.keeps).roundCount hsettles
  | SellFull hopened hpaid hfull hsettled _ hnext =>
      rw [(settles_of_fill hinv hopen hopened hpaid hsettled hnext).charges_iff]
      simp only [ChargesExactly, (fill_iff hinv hopened hpaid hfull).2, hpaid.spent,
        hopened.spent hinv, sellerPayout, if_true]
      omega
  | _ => exact absurd rfl hsettles

/-- One sell fills a round of fifteen units with three locks of five. -/
theorem charged_eq_paid_full_round :
    ∃ w₀ h w tx w', Initial (sampleEnv 9) w₀ ∧ History (sampleEnv 9) w₀ h w ∧
      Step (sampleEnv 9) w tx w' ∧ w'.state.roundCount ≠ w.state.roundCount ∧
      paidDuring w.state.roundCount (⟨w, tx, w'⟩ :: h) = 15 ∧ Charges w w' 15 := by
  obtain ⟨w₀, hist, w', hinit, hrun, hw⟩ := exists_sample_history 9 3 5000000000
    (threeInvestors 10 20 ++ [sell 0 2000000000, sell 0 3000000000])
    (fun _ h _ => settlesLast (fun e h => FillExact (sampleEnv 9) e.pre ∧
      paidDuring e.pre.state.roundCount (e :: h) = 15) h)
    (by decide +kernel)
  match hist, hrun, hw with
  | ⟨w, ⟨ctx, i, r⟩, w''⟩ :: h, hrun, hw =>
      simp only [settlesLast, Bool.and_eq_true, decide_eq_true_eq] at hw
      obtain ⟨hcount, hexact, hpaid⟩ := hw
      obtain ⟨hbefore, hstep, -⟩ := hrun.of_cons
      have hiff := charged_eq_paid_iff hinit hbefore hstep hcount
      rw [hpaid] at hiff
      refine ⟨w₀, h, w, _, w'', hinit, hbefore, hstep, hcount, hpaid, hiff.mpr ?_⟩
      cases i with
      | SellWaln => exact hexact
      | _ => trivial

/-- The round whose gap could not be placed: its sellers are paid five, and three are charged. -/
theorem charged_ne_paid_unplaced_gap :
    ∃ w₀ h w tx w', Initial (sampleEnv 9) w₀ ∧ History (sampleEnv 9) w₀ h w ∧
      Step (sampleEnv 9) w tx w' ∧ w'.state.roundCount ≠ w.state.roundCount ∧
      paidDuring w.state.roundCount (⟨w, tx, w'⟩ :: h) = 5 ∧
      w.state.totalUsdcInLobby = w'.state.totalUsdcInLobby + 3 ∧ ¬ Charges w w' 5 := by
  obtain ⟨w₀, hist, w', hinit, hrun, hw⟩ := exists_sample_history 9 1 5000000000
    (threeInvestors 10 2 ++ [sell 0 4000000000, sell 0 1000000000])
    (fun _ h _ => settlesLast (fun e h => paidDuring e.pre.state.roundCount (e :: h) = 5 ∧
      e.pre.state.totalUsdcInLobby = e.post.state.totalUsdcInLobby + 3) h)
    (by decide +kernel)
  match hist, hrun, hw with
  | ⟨w, tx, w''⟩ :: h, hrun, hw =>
      simp only [settlesLast, Bool.and_eq_true, decide_eq_true_eq] at hw
      obtain ⟨hcount, hpaid, hlobby⟩ := hw
      obtain ⟨hbefore, hstep, -⟩ := hrun.of_cons
      refine ⟨w₀, h, w, tx, w'', hinit, hbefore, hstep, hcount, hpaid, hlobby, fun hcharges => ?_⟩
      have := hcharges.lobby
      omega

end Floor
