import FloorProgram.Settling

/-!
# Is the vault good for the pool?

Sellers are paid from the cap of the round, each with its own rounding; the participants of a full
round are charged their locks.  Nothing else can open a gap between the vault and the pool:
deposits, withdrawals, removals and forced closes move both sides alike.

The start of a round gives the units lost to rounding to the first participant that can take all of
them, and to nobody if there is none.  Then the locks stay below the cap, a seller who fills the
round is paid more than is charged for it, and the vault is short of what the pool stands for.  So
the vault is good for the pool as long as every sell that fills a round is covered by the locks
(`FillCovered`).
-/

namespace Floor

open Checked Loop Keyed Search

variable {env : Env} {w w' : World} {ctx : Context}

/-! ## The sell that fills a round -/

/-- What the sellers of the running round get in total if the next sell fills it. -/
def World.fillCost (env : Env) (w : World) : ℕ :=
  w.state.currentRoundUsdcSpent
    + (w.state.currentRoundSizeWaln - w.state.currentRoundWaln) * w.state.currentRoundFloorPrice
      / 10 ^ w.decimals env

/-- A sell that fills the round now pays no more than the locks.  If the sell begins the round, this
is the question whether the rounding gap can be placed. -/
def FillCovered (env : Env) (w : World) : Prop :=
  if w.state.roundStarted = true then w.fillCost env ≤ w.state.totalUsdcLockedForRound
  else GapPlaced w.pool.investors w.state.roundSizeWaln w.state.floorPriceUsdc (w.decimals env)

/-- A sell that fills the round now pays exactly the locks. -/
def FillExact (env : Env) (w : World) : Prop :=
  if w.state.roundStarted = true then w.fillCost env = w.state.totalUsdcLockedForRound
  else GapPlaced w.pool.investors w.state.roundSizeWaln w.state.floorPriceUsdc (w.decimals env)

instance : Decidable (FillCovered env w) := by unfold FillCovered; infer_instance

instance : Decidable (FillExact env w) := by unfold FillExact; infer_instance

/-- The sell offers enough to fill the round. -/
lemma Paid.rest_le {maxWaln walnAmount usdcOut : ℕ} (hp : Paid env maxWaln walnAmount usdcOut w w')
    (hfull : w'.state.currentRoundWaln = w'.state.currentRoundSizeWaln) :
    walnAmount = w.state.currentRoundSizeWaln - w.state.currentRoundWaln ∧
      w.state.currentRoundSizeWaln - w.state.currentRoundWaln ≤ maxWaln := by
  have hamount := hp.amount
  have hle := hp.waln_le
  rw [hp.world] at hfull
  simp only at hfull
  omega

/-- **What a filled round has paid**, against its locks, in terms of the world before the sell. -/
lemma fill_iff {w₁ w₂ : World} {maxWaln walnAmount usdcOut : ℕ} (h : Inv env w)
    (hopen : Opened env w w₁) (hpaid : Paid env maxWaln walnAmount usdcOut w₁ w₂)
    (hfull : w₂.state.currentRoundWaln = w₂.state.currentRoundSizeWaln) :
    (FillCovered env w ↔ w₂.state.currentRoundUsdcSpent ≤ lockedUsdc w₂.pool.investors) ∧
      (FillExact env w ↔ w₂.state.currentRoundUsdcSpent = lockedUsdc w₂.pool.investors) := by
  obtain ⟨hrest, -⟩ := hpaid.rest_le hfull
  have hspent : w₂.state.currentRoundUsdcSpent = w₁.fillCost env := by
    rw [hpaid.world, World.fillCost, ← hrest, ← hpaid.out]
  have hpool : w₂.pool = w₁.pool := by rw [hpaid.world]
  rw [hspent, hpool]
  rcases hopen with ⟨hstarted, rfl⟩ | ⟨hidle, investors, volume, locked, hstart, rfl⟩
  · simp only [FillCovered, FillExact, hstarted, if_true, h.lobby.locked, and_self]
  · -- the round is begun and filled by one sell, which is paid the whole cap
    obtain ⟨hlocks, hwaln, -⟩ := h.lobby.idle hidle
    have hstarted := executeRoundStart_ok (lockedUsdc_eq_zero.mp hlocks) hstart
    have hiff := executeRoundStart_fills_iff hstart
    have hle := hstarted.locked_le
    simp only [FillCovered, FillExact, hidle, Bool.false_eq_true, if_false]
    rw [← hiff]
    simp only [World.fillCost, ProgramState.snapshot, hwaln, hstarted.locked_eq, Nat.sub_zero,
      Nat.zero_add, World.decimals] at hle ⊢
    omega

/-! ## Solvency -/

/-- The vault is good for the pool, less what the running round has already paid to its sellers. -/
def Solvent (w : World) : Prop :=
  poolUsdc w.pool.investors ≤ w.usdcVault + w.state.currentRoundUsdcSpent

/-- Moving USDC inside records keeps its sum. -/
lemma poolUsdc_of_moved {investors investors' : List InvestorRecord}
    (h : List.Forall₂ Moved investors investors') : poolUsdc investors' = poolUsdc investors :=
  congrArg List.sum (map_eq_of_forall₂ h fun _ _ hm => hm.usdc)

/-- A start takes nothing out of the vault. -/
lemma Solvent.begun (hw : Solvent w) (h : Inv env w) (hidle : w.state.roundStarted = false)
    (hb : Begun env w w') : Solvent w' := by
  have hpool := poolUsdc_of_moved (hb.keeps h hidle).pool
  have hspent := (h.lobby.idle hidle).2.2
  obtain ⟨investors, volume, locked, -, rfl⟩ := hb
  simp only [Solvent, ProgramState.snapshot] at hw hpool ⊢
  omega

/-- Nor does a sell that opens its round, as far as that goes. -/
lemma Solvent.opened (hw : Solvent w) (h : Inv env w) (ho : Opened env w w') : Solvent w' := by
  rcases ho with ⟨-, rfl⟩ | ⟨hidle, hb⟩
  · exact hw
  · exact hw.begun h hidle hb

/-- What the seller gets is what the round has paid more. -/
lemma Solvent.paid {maxWaln walnAmount usdcOut : ℕ} (hw : Solvent w)
    (hp : Paid env maxWaln walnAmount usdcOut w w') : Solvent w' := by
  have hle := hp.usdc_le
  rw [hp.world]
  simp only [Solvent] at hw ⊢
  omega

/-- A settlement keeps the vault good if it charges at least what was paid. -/
lemma Solvent.settled {now : ℤ} {entries : List InvestorAlloc} {usdc dust : ℕ} (hw : Solvent w)
    (hs : Settled env now entries usdc dust w w') (hle : w.state.currentRoundUsdcSpent ≤ usdc) :
    Solvent w' := by
  have hpool := hs.settlement.poolUsdc_eq
  simp only [Solvent, hs.usdcVault, hs.state] at hw ⊢
  omega

/-- The automatic start takes nothing out of the vault. -/
lemma Solvent.autoStarted (hw : Solvent w) (h : Inv env w) (hidle : w.state.roundStarted = false)
    (ha : AutoStarted env w w') : Solvent w' := by
  rcases ha with hb | ⟨rfl, -⟩
  · exact hw.begun h hidle hb
  · exact hw

/-- A transaction that, if it offers enough to fill the round, is covered. -/
def Covered (env : Env) (w : World) : Instruction → Prop
  | .SellWaln _ _ maxWaln =>
    w.state.effectiveSize - w.state.effectiveWaln ≤ maxWaln.toNat → FillCovered env w
  | _ => True

instance : ∀ i : Instruction, Decidable (Covered env w i) := by
  intro i
  cases i <;> unfold Covered <;> infer_instance

/-- The effective size and wALN are those of the round that was opened. -/
lemma Opened.effective (h : Inv env w) (ho : Opened env w w') :
    w'.state.currentRoundSizeWaln = w.state.effectiveSize ∧
      w'.state.currentRoundWaln = w.state.effectiveWaln := by
  rcases ho with ⟨hstarted, rfl⟩ | ⟨hidle, _, _, _, -, rfl⟩
  · simp [ProgramState.effectiveSize, ProgramState.effectiveWaln, hstarted]
  · simp [ProgramState.effectiveSize, ProgramState.effectiveWaln, hidle, ProgramState.snapshot,
      (h.lobby.idle hidle).2.1]

/-- Rewriting one record and moving as much USDC in the vault. -/
lemma Solvent.update {k : Pubkey} {f : InvestorRecord → InvestorRecord} {r : InvestorRecord}
    {lobby usdcVault : ℕ} (hw : Solvent w) (hr : lookup byInvestor k w.pool.investors = some r)
    (hvault : usdcVault + r.position = w.usdcVault + (f r).position) :
    Solvent { w with
      state := { w.state with totalUsdcInLobby := lobby }
      pool := w.updateInvestor k f
      usdcVault := usdcVault } := by
  have hpool := poolUsdc_modifyFirst (f := f) hr
  simp only [Solvent, World.updateInvestor] at hw ⊢
  omega

/-- **One transaction** keeps the vault good, if it is covered. -/
theorem Effect.solvent {i : Instruction} {r : Receipt} (h : Inv env w)
    (hopen : w.state.roundStarted = true → RoundOpen (w.decimals env) w.state)
    (he : Effect env w ctx i w' r) (hc : Covered env w i) (hw : Solvent w) : Solvent w' := by
  cases he with
  | Configure | ManageRent | Claim | Mint => exact hw
  | SetUnlock hr => exact hw.update hr rfl
  | Deposit _ hr _ _ =>
      refine hw.update hr ?_
      simp only [creditedRecord, InvestorRecord.position]
      omega
  | Join =>
      simp only [Solvent, poolUsdc, List.map_append, List.sum_append, List.map_cons, List.map_nil,
        List.sum_cons, List.sum_nil, creditedRecord, InvestorRecord.position,
        InvestorRecord.empty] at hw ⊢
      omega
  | Withdraw hr _ hle hvault =>
      refine hw.update hr ?_
      simp only [debitedRecord, InvestorRecord.position]
      omega
  | @Remove _ _ idx x hi hx _ hlock hvault =>
      have hpool : poolUsdc w.pool.investors
          = x.position + poolUsdc (swapRemove idx w.pool.investors) := by
        rw [← hx]
        exact sum_swapRemove _ hi
      simp only [Solvent, InvestorRecord.position, hlock] at hw hpool ⊢
      omega
  | Cancel hstarted hempty =>
      have hspent : w.state.currentRoundUsdcSpent = 0 := by
        have := (h.round hstarted).spent_le
        rw [hempty, Nat.zero_mul] at this
        exact (Nat.mul_eq_zero.mp (Nat.le_zero.mp this)).resolve_right (scale_pos _).ne'
      have hpool := poolUsdc_of_moved (List.forall₂_map_right_iff.mpr
        (List.forall₂_same.mpr fun r (_ : r ∈ w.pool.investors) => moved_unlockedRecord r))
      simp only [Solvent, hspent] at hw ⊢
      omega
  | Close _ _ hsettled => exact hw.settled hsettled le_rfl
  | Sell hopened hpaid _ => exact (hw.opened h hopened).paid hpaid
  | SellFull hopened hpaid hfull hsettled _ hnext =>
      obtain ⟨hinv₁, -⟩ := inv_opened h hopen hopened
      obtain ⟨hinv₂, hstarted, -⟩ := inv_paid hinv₁ hpaid
      obtain ⟨hinv₃, hidle⟩ := inv_settled hinv₂ hstarted hsettled
      have hcovered : FillCovered env w := by
        obtain ⟨-, hle⟩ := hpaid.rest_le hfull
        rw [(hopened.effective h).1, (hopened.effective h).2] at hle
        exact hc hle
      have hle := (fill_iff h hopened hpaid hfull).1.mp hcovered
      exact (((hw.opened h hopened).paid hpaid).settled hsettled hle).autoStarted hinv₃ hidle hnext
  | @UpdateVolume k v =>
      have hpool : poolUsdc (modifyFirst byInvestor k (revaluedRecord v.toNat) w.pool.investors)
          = poolUsdc w.pool.investors := congrArg List.sum (map_modifyFirst fun _ => rfl)
      simp only [Solvent, World.updateInvestor, hpool] at hw ⊢
      exact hw

/-- **USDC solvency**: in every run in which the sells that fill a round are covered, the vault is
good for the pool, less what the running round has paid; and between rounds it is good for all
deposits at once.  Over a run the condition is sufficient but not necessary: what another round has
charged above its payments can make up for a round that is not covered. -/
theorem usdc_solvency {w₀ : World} {h : List (Transition.Entry World Tx)} (hinit : Initial env w₀)
    (hrun : History env w₀ h w) (hcovered : ∀ e ∈ h, Covered env e.pre e.label.instr) :
    (w.pool.investors.map fun r => r.usdcDeposited + r.usdcLockedCurrentRound).sum
        ≤ w.usdcVault + w.state.currentRoundUsdcSpent ∧
      (w.state.roundStarted = false →
        (w.pool.investors.map fun r => r.usdcDeposited).sum ≤ w.usdcVault) := by
  have hsolvent : Solvent w := by
    refine Transition.Trace.invariant (P := fun h w =>
      (∀ e ∈ h, Covered env e.pre e.label.instr) → Solvent w) ?_ ?_ hrun hcovered
    · intro _
      rw [Solvent, hinit.empty.1]
      exact Nat.zero_le _
    · intro h w tx w' htrace ih hstep hcov
      have hreach := History.reachable htrace hinit
      obtain ⟨hinv, hopen⟩ := reachable_inv hreach
      obtain ⟨hc, hcov⟩ := List.forall_mem_cons.mp hcov
      exact (hreach.effect hstep).solvent hinv hopen hc (ih hcov)
  refine ⟨hsolvent, fun hidle => ?_⟩
  have hspent := ((reachable_inv (hrun.reachable hinit)).1.lobby.idle hidle).2.2
  have hle : (w.pool.investors.map fun r => r.usdcDeposited).sum ≤ poolUsdc w.pool.investors :=
    List.sum_le_sum fun r _ => Nat.le_add_right _ _
  rw [Solvent] at hsolvent
  omega

/-- A full round and the start of the next one, with locks that fill the cap. -/
theorem usdc_solvency_full_round :
    ∃ w, Reachable (sampleEnv 9) w ∧ w.usdcVault = 45 ∧ w.state.roundCount = 1 ∧
      (w.pool.investors.map fun r => r.usdcDeposited + r.usdcLockedCurrentRound).sum
        ≤ w.usdcVault + w.state.currentRoundUsdcSpent := by
  obtain ⟨w₀, hist, w, hinit, hrun, hw⟩ := exists_sample_history 9 3 5000000000
    (threeInvestors 10 20 ++ [sell 0 5000000000])
    (fun _ h w => w.usdcVault = 45 ∧ w.state.roundCount = 1 ∧
      ∀ e ∈ h, Covered (sampleEnv 9) e.pre e.label.instr)
    (by decide +kernel)
  simp only [decide_eq_true_eq] at hw
  exact ⟨w, hrun.reachable hinit, hw.1, hw.2.1, (usdc_solvency hinit hrun hw.2.2).1⟩

/-- Three deposits of two units and a round that costs five.  Each share is one unit, and nobody has
the two units lost to rounding left, so three units are locked; the two sellers are paid all five.
Afterwards the deposits sum to three, and the vault has one. -/
theorem usdc_insolvency_unplaced_gap :
    ∃ w, Reachable (sampleEnv 9) w ∧ w.state.roundStarted = false ∧ w.usdcVault = 1 ∧
      (w.pool.investors.map fun r => r.usdcDeposited).sum = 3 ∧
      ¬ (w.pool.investors.map fun r => r.usdcDeposited + r.usdcLockedCurrentRound).sum
        ≤ w.usdcVault + w.state.currentRoundUsdcSpent := by
  obtain ⟨w₀, hist, w, hinit, hrun, hw⟩ := exists_sample_history 9 1 5000000000
    (threeInvestors 10 2 ++ [sell 0 4000000000, sell 0 1000000000])
    (fun _ _ w => w.state.roundStarted = false ∧ w.usdcVault = 1 ∧
      (w.pool.investors.map fun r => r.usdcDeposited).sum = 3 ∧
      ¬ (w.pool.investors.map fun r => r.usdcDeposited + r.usdcLockedCurrentRound).sum
        ≤ w.usdcVault + w.state.currentRoundUsdcSpent)
    (by decide +kernel)
  simp only [decide_eq_true_eq] at hw
  exact ⟨w, hrun.reachable hinit, hw⟩

end Floor
