import FloorProgram.Accounting.Solvency
import FloorProgram.Core.Diamond
import FloorProgram.Program

/-!
# Leaving the pool

Withdrawals are paid from one vault.  As long as the vault is good for all deposits at once, it does
not matter who is first: what an investor can withdraw now it can withdraw after any others have.

* `withdrawUsdc_eq_ok` — when a withdrawal succeeds, and what it does.
* `withdrawals_diamond` — withdrawals of different investors are independent.
* `withdrawals_any_order`, `everyone_leaves` — over whole runs: no withdrawal is lost to an earlier
  one, and if all withdraw everything, all are paid in full.
-/

namespace Floor

open Checked Keyed

variable {env : Env} {w w' u : World} {ctx : Context} {r : Receipt}

/-! ## One withdrawal -/

/-- What a withdrawal demands. -/
structure Withdrawable (ctx : Context) (usdcMint : Pubkey) (amount : ℕ) (w : World)
    (x : InvestorRecord) : Prop where
  live : w.state.frozen = false
  mint : usdcMint = w.state.usdcMint
  found : lookup byInvestor ctx.signer w.pool.investors = some x
  unlocked : x.usdcUnlockTs ≤ ctx.now
  positive : 0 < withdrawAmount amount x
  deposited : withdrawAmount amount x ≤ x.usdcDeposited
  accepts : ctx.cpiAccepts = true

/-- The world after a withdrawal of `amount`. -/
def World.withdrawn (k : Pubkey) (amount : ℕ) (w : World) : World :=
  { w with
    state := { w.state with totalUsdcInLobby := w.state.totalUsdcInLobby - amount }
    pool := w.updateInvestor k (debitedRecord amount)
    usdcVault := w.usdcVault - amount }

lemma Withdrawable.le_lobby {m : Pubkey} {a : ℕ} {x : InvestorRecord} (h : Inv env w)
    (hx : Withdrawable ctx m a w x) : withdrawAmount a x ≤ w.state.totalUsdcInLobby := by
  have hposition := position_le_poolUsdc (lookup_mem hx.found)
  have hle := hx.deposited
  rw [h.lobby.lobby]
  rw [InvestorRecord.position] at hposition
  omega

/-- **A withdrawal** succeeds exactly if its demands are met and the vault has the amount. -/
lemma withdrawUsdc_eq_ok {m : Pubkey} {a : ℕ} (h : Inv env w) :
    withdrawUsdc ctx m a w = .ok (w', r) ↔
      ∃ x, Withdrawable ctx m a w x ∧ withdrawAmount a x ≤ w.usdcVault ∧
        w' = w.withdrawn ctx.signer (withdrawAmount a x) ∧
        r = { usdcOut := withdrawAmount a x } := by
  have hpool : ∀ x, lookup byInvestor ctx.signer w.pool.investors = some x →
      modifyFirst byInvestor ctx.signer
          (fun y => { y with usdcDeposited := x.usdcDeposited - withdrawAmount a x })
          w.pool.investors
        = modifyFirst byInvestor ctx.signer (debitedRecord (withdrawAmount a x))
          w.pool.investors := fun x hx => modifyFirst_congr hx rfl
  simp only [withdrawUsdc, bind_eq_ok, ensure_eq_ok, okOr_eq_ok, arith_eq_ok, checkedSub_eq_some,
    transferOut_eq_ok, pure_eq_ok, Prod.mk.injEq]
  constructor
  · rintro ⟨_, hlive, _, hmint, x, hfound, _, hunlocked, _, hpos, _, hle, _, ⟨-, rfl⟩, _,
      ⟨haccepts, hvault, rfl⟩, _, ⟨-, rfl⟩, rfl, rfl⟩
    exact ⟨x, ⟨hlive, hmint, hfound, hunlocked, hpos, hle, haccepts⟩, hvault,
      by rw [World.withdrawn, World.updateInvestor, ← hpool x hfound]; rfl, rfl⟩
  · rintro ⟨x, hx, hvault, rfl, rfl⟩
    refine ⟨(), hx.live, (), hx.mint, x, hx.found, (), hx.unlocked, (), hx.positive, (),
      hx.deposited, _, ⟨hx.deposited, rfl⟩, _, ⟨hx.accepts, hvault, rfl⟩, _,
      ⟨hx.le_lobby h, rfl⟩, ?_, rfl⟩
    rw [World.withdrawn, World.updateInvestor, ← hpool x hx.found]
    rfl

/-! ## Two withdrawals -/

/-- A call of `withdraw_usdc`. -/
structure WithdrawCall where
  ctx : Context
  usdcMint : Pubkey
  amount : UInt64

/-- Who makes the call. -/
def WithdrawCall.owner (c : WithdrawCall) : Pubkey := c.ctx.signer

/-- Execute the call. -/
def WithdrawCall.run (env : Env) (c : WithdrawCall) (w : World) :
    Except TxError (World × Receipt) :=
  exec env c.ctx (.WithdrawUsdc c.usdcMint c.amount) w

/-- The deposits of a pool. -/
def depositedUsdc (investors : List InvestorRecord) : ℕ :=
  (investors.map InvestorRecord.usdcDeposited).sum

/-- A world whose vault is good for all deposits at once. -/
structure Backed (env : Env) (w : World) : Prop where
  reachable : Reachable env w
  vault : depositedUsdc w.pool.investors ≤ w.usdcVault

variable {c d : WithdrawCall} {x y : InvestorRecord}

lemma depositedUsdc_withdrawn {k : Pubkey} {amount : ℕ}
    (hx : lookup byInvestor k w.pool.investors = some x) (hle : amount ≤ x.usdcDeposited) :
    depositedUsdc (w.withdrawn k amount).pool.investors + amount
      = depositedUsdc w.pool.investors := by
  have hsum := sum_modifyFirst (f := debitedRecord amount) InvestorRecord.usdcDeposited hx
  simp only [depositedUsdc, World.withdrawn, World.updateInvestor, debitedRecord] at hsum ⊢
  omega

lemma lookup_withdrawn {j k : Pubkey} {amount : ℕ} :
    lookup byInvestor j (w.withdrawn k amount).pool.investors
      = if j = k then (lookup byInvestor j w.pool.investors).map (debitedRecord amount)
        else lookup byInvestor j w.pool.investors :=
  lookup_modifyFirst (f := debitedRecord amount) (fun _ => rfl) j

lemma withdrawn_comm {j k : Pubkey} {a b : ℕ} (hjk : j ≠ k) :
    (w.withdrawn k a).withdrawn j b = (w.withdrawn j b).withdrawn k a := by
  simp only [World.withdrawn, World.updateInvestor, World.mk.injEq, ProgramState.mk.injEq,
    InvestorPool.mk.injEq, true_and, and_true]
  exact ⟨by omega, modifyFirst_comm hjk (fun _ => rfl) fun _ => rfl, by omega⟩

/-- Two deposits are part of the deposits of the pool. -/
lemma deposits_le {j k : Pubkey} (hjk : j ≠ k)
    (hx : lookup byInvestor k w.pool.investors = some x)
    (hy : lookup byInvestor j w.pool.investors = some y) :
    x.usdcDeposited + y.usdcDeposited ≤ depositedUsdc w.pool.investors := by
  have hrest := depositedUsdc_withdrawn hx le_rfl
  have hy' : lookup byInvestor j (w.withdrawn k x.usdcDeposited).pool.investors = some y := by
    rw [lookup_withdrawn, if_neg hjk, hy]
  have hle : y.usdcDeposited ≤ depositedUsdc (w.withdrawn k x.usdcDeposited).pool.investors :=
    List.single_le_sum (fun _ _ => Nat.zero_le _) _ (List.mem_map_of_mem (lookup_mem hy'))
  omega

lemma WithdrawCall.run_eq_ok (h : Inv env w) :
    c.run env w = .ok (w', r) ↔
      ∃ x, Withdrawable c.ctx c.usdcMint c.amount.toNat w x ∧
        withdrawAmount c.amount.toNat x ≤ w.usdcVault ∧
        w' = w.withdrawn c.owner (withdrawAmount c.amount.toNat x) ∧
        r = { usdcOut := withdrawAmount c.amount.toNat x } := withdrawUsdc_eq_ok h

/-- What another investor withdraws does not stand in the way. -/
lemma Withdrawable.after {m : Pubkey} {a amount : ℕ} {k : Pubkey} (hne : ctx.signer ≠ k)
    (hx : Withdrawable ctx m a w x) : Withdrawable ctx m a (w.withdrawn k amount) x :=
  ⟨hx.live, hx.mint, by rw [lookup_withdrawn, if_neg hne, hx.found], hx.unlocked, hx.positive,
    hx.deposited, hx.accepts⟩

/-- **Withdrawals of different investors are independent**, while the vault is good for all
deposits. -/
theorem withdrawals_diamond (env : Env) :
    Diamond (Backed env) (fun c d => c.owner ≠ d.owner) (WithdrawCall.run env) where
  keep := by
    intro c w w' r hw hx
    refine ⟨hw.reachable.step (a := ⟨c.ctx, .WithdrawUsdc c.usdcMint c.amount, r⟩) hx, ?_⟩
    obtain ⟨x, hdemands, -, rfl, -⟩ := (WithdrawCall.run_eq_ok (reachable_inv hw.reachable).1).mp hx
    have hrest := depositedUsdc_withdrawn hdemands.found hdemands.deposited
    have hvault := hw.vault
    simp only [WithdrawCall.owner, World.withdrawn] at hrest ⊢
    omega
  swap := by
    intro c d w t u r r' hw hne hc hd
    have ht : Reachable env t :=
      hw.reachable.step (a := ⟨c.ctx, .WithdrawUsdc c.usdcMint c.amount, r⟩) hc
    have hu : Reachable env u :=
      hw.reachable.step (a := ⟨d.ctx, .WithdrawUsdc d.usdcMint d.amount, r'⟩) hd
    have hinv := (reachable_inv hw.reachable).1
    obtain ⟨x, hx, -, rfl, rfl⟩ := (WithdrawCall.run_eq_ok hinv).mp hc
    obtain ⟨y, hy, -, rfl, rfl⟩ := (WithdrawCall.run_eq_ok hinv).mp hd
    have hboth := deposits_le (Ne.symm hne) hx.found hy.found
    have hvault := hw.vault
    have hxle := hx.deposited
    have hyle := hy.deposited
    refine ⟨_, (WithdrawCall.run_eq_ok (reachable_inv ht).1).mpr
        ⟨y, hy.after (Ne.symm hne), ?_, rfl, rfl⟩,
      (WithdrawCall.run_eq_ok (reachable_inv hu).1).mpr
        ⟨x, hx.after hne, ?_, withdrawn_comm (Ne.symm hne), rfl⟩⟩
    all_goals simp only [World.withdrawn]; omega

/-! ## Runs -/

/-- In a run whose filling sells are covered the vault is good for all deposits at once, unless the
running round has paid more to its sellers than it has locked. -/
lemma History.backed {w₀ : World} {h : List (Transition.Entry World Tx)} (hinit : Initial env w₀)
    (hrun : History env w₀ h w) (hcovered : ∀ e ∈ h, Covered env e.pre e.label.instr)
    (hspent : w.state.currentRoundUsdcSpent ≤ w.state.totalUsdcLockedForRound) : Backed env w := by
  have hsolvent : Solvent w := by
    clear hspent
    induction hrun with
    | nil =>
        rw [Solvent, hinit.empty.1]
        exact Nat.zero_le _
    | cons htrace hstep ih =>
        obtain ⟨hc, hcovered⟩ := List.forall_mem_cons.mp hcovered
        have hw := History.reachable htrace hinit
        obtain ⟨hinv, hopen⟩ := reachable_inv hw
        exact (Reachable.effect hw hstep).solvent hinv hopen hc (ih hcovered)
  have hw := History.reachable hrun hinit
  have hlocked := (reachable_inv hw).1.lobby.locked
  have hsum : poolUsdc w.pool.investors
      = depositedUsdc w.pool.investors + lockedUsdc w.pool.investors := List.sum_map_add
  rw [Solvent] at hsolvent
  exact ⟨hw, by omega⟩

/-- **No run on the vault.**  In a run whose filling sells are covered, withdrawals of different
investors that succeed one by one succeed one after the other in every order, each with the same
amount, and all orders end in the same world. -/
theorem withdrawals_any_order {w₀ : World} {h : List (Transition.Entry World Tx)}
    {cs : List WithdrawCall} {out : WithdrawCall → Receipt} (hinit : Initial env w₀)
    (hrun : History env w₀ h w) (hcovered : ∀ e ∈ h, Covered env e.pre e.label.instr)
    (hspent : w.state.currentRoundUsdcSpent ≤ w.state.totalUsdcLockedForRound)
    (howners : (cs.map WithdrawCall.owner).Nodup)
    (hok : ∀ c ∈ cs, ∃ w', c.run env w = .ok (w', out c)) :
    ∃ w', ∀ cs', cs.Perm cs' → runAll (WithdrawCall.run env) cs' w = .ok (w', cs'.map out) :=
  (withdrawals_diamond env).any_order (fun _ _ hne => Ne.symm hne)
    (History.backed hinit hrun hcovered hspent) (List.pairwise_map.mp howners) hok

/-- A call of investor `k` at time `200`. -/
def unlockedWithdrawal (k : Pubkey) (amount : UInt64) : WithdrawCall :=
  ⟨signedBy k 200 [], 10, amount⟩

/-- One investor takes everything and two take a part. -/
def threeWithdrawals : List WithdrawCall :=
  [unlockedWithdrawal 21 4, unlockedWithdrawal 22 18446744073709551615, unlockedWithdrawal 23 1]

/-- What they pay while ten units are deposited each. -/
def threePayouts (c : WithdrawCall) : Receipt :=
  { usdcOut := if c.owner = 22 then 10 else c.amount.toNat }

/-- One round is settled and the next one has bought for three units. -/
def secondRound : List (Context × Instruction) :=
  threeInvestors 10 20 ++ [sell 0 5000000000, sell 1 1000000000]

/-- Whether the withdrawal pays that. -/
def paysExit (w : World) (c : WithdrawCall) : Bool :=
  isOkAnd (fun p : World × Receipt => decide (p.2 = threePayouts c)) (c.run (sampleEnv 9) w)

theorem withdrawals_any_order_second_round :
    ∃ w, Reachable (sampleEnv 9) w ∧ w.state.currentRoundUsdcSpent = 3 ∧
      ∃ w', ∀ cs', threeWithdrawals.Perm cs' →
        runAll (WithdrawCall.run (sampleEnv 9)) cs' w = .ok (w', cs'.map threePayouts) := by
  obtain ⟨w₀, h, w, hw₀, hh, hcheck⟩ := exists_sample_history 9 3 5000000000 secondRound
    (fun _ h w => decide (w.state.currentRoundUsdcSpent = 3 ∧
      w.state.currentRoundUsdcSpent ≤ w.state.totalUsdcLockedForRound ∧
      ∀ e ∈ h, Covered (sampleEnv 9) e.pre e.label.instr) && threeWithdrawals.all (paysExit w))
    (by decide +kernel)
  obtain ⟨hstate, hpays⟩ := Bool.and_eq_true_iff.mp hcheck
  obtain ⟨hthree, hspent, hcovered⟩ := of_decide_eq_true hstate
  refine ⟨w, hh.reachable hw₀, hthree,
    withdrawals_any_order hw₀ hh hcovered hspent (by decide) fun c hc => ?_⟩
  obtain ⟨⟨w', r⟩, hrun, hr⟩ := isOkAnd_eq_true.mp (List.all_eq_true.mp hpays c hc)
  obtain rfl := of_decide_eq_true hr
  exact ⟨w', hrun⟩

/-! ## Everybody leaves -/

/-- The deposit of an investor. -/
def heldDeposit (k : Pubkey) (investors : List InvestorRecord) : ℕ :=
  valueOf byInvestor InvestorRecord.usdcDeposited k investors

/-- The investors with something to withdraw. -/
def depositors (investors : List InvestorRecord) : List Pubkey :=
  (investors.filter fun x => 0 < x.usdcDeposited).map byInvestor

/-- A call for everything, made after the withdraw lock of its owner has run out. -/
structure WithdrawCall.Ready (w : World) (c : WithdrawCall) : Prop where
  all : c.amount.toNat = U64_MAX
  mint : c.usdcMint = w.state.usdcMint
  unlocked : ∀ x ∈ w.pool.investors, x.investor = c.owner → x.usdcUnlockTs ≤ c.ctx.now
  accepts : c.ctx.cpiAccepts = true

/-- Such a call pays the whole deposit. -/
lemma WithdrawCall.Ready.run_total (hw : Backed env w) (hlive : w.state.frozen = false)
    (hready : c.Ready w) (hmem : c.owner ∈ depositors w.pool.investors) :
    ∃ w', c.run env w = .ok (w', { usdcOut := heldDeposit c.owner w.pool.investors }) := by
  obtain ⟨hinv, -⟩ := reachable_inv hw.reachable
  obtain ⟨x, hx, hkey⟩ := List.mem_map.mp hmem
  obtain ⟨hx, hpos⟩ := List.mem_filter.mp hx
  have hpos : 0 < x.usdcDeposited := of_decide_eq_true hpos
  have hfound : lookup byInvestor c.owner w.pool.investors = some x :=
    (lookup_eq_some_iff hinv.keys).mpr ⟨hx, hkey⟩
  have hamount : withdrawAmount c.amount.toNat x = x.usdcDeposited := if_pos hready.all
  have hdeposit : heldDeposit c.owner w.pool.investors = x.usdcDeposited :=
    valueOf_of_mem hinv.keys hx hkey
  have hle : x.usdcDeposited ≤ depositedUsdc w.pool.investors :=
    List.single_le_sum (fun _ _ => Nat.zero_le _) _ (List.mem_map_of_mem hx)
  refine ⟨_, (WithdrawCall.run_eq_ok hinv).mpr ⟨x, ⟨hlive, hready.mint, hfound,
    hready.unlocked x hx hkey, ?_, ?_, hready.accepts⟩, ?_, rfl, ?_⟩⟩ <;> rw [hamount]
  · exact hpos
  · exact hle.trans hw.vault
  · rw [hdeposit]

/-- Calls for everything empty the deposits of their owners, and no others. -/
lemma heldDeposit_runAll {cs : List WithdrawCall} {rs : List Receipt} (hw : Backed env w)
    (hall : ∀ c ∈ cs, c.amount.toNat = U64_MAX)
    (hrun : runAll (WithdrawCall.run env) cs w = .ok (w', rs)) (k : Pubkey) :
    heldDeposit k w'.pool.investors
      = if k ∈ cs.map WithdrawCall.owner then 0 else heldDeposit k w.pool.investors := by
  induction cs generalizing w rs with
  | nil =>
      obtain ⟨rfl, -⟩ := Prod.mk.inj (Except.ok.inj hrun)
      rfl
  | cons c cs ih =>
      obtain ⟨hc, hall⟩ := List.forall_mem_cons.mp hall
      obtain ⟨u, r, rs', hu, hrest, -⟩ := runAll_cons_eq_ok hrun
      rw [ih ((withdrawals_diamond env).keep hw hu) hall hrest]
      obtain ⟨x, hx, -, rfl, -⟩ := (WithdrawCall.run_eq_ok (reachable_inv hw.reachable).1).mp hu
      have hfound : lookup byInvestor c.owner w.pool.investors = some x := hx.found
      have hamount : withdrawAmount c.amount.toNat x = x.usdcDeposited := if_pos hc
      simp only [List.map_cons, List.mem_cons]
      by_cases hk : k = c.owner
      · subst hk
        have hzero : heldDeposit c.owner
            (w.withdrawn c.owner (withdrawAmount c.amount.toNat x)).pool.investors = 0 := by
          rw [heldDeposit, valueOf, lookup_withdrawn, if_pos rfl, hfound]
          simp [debitedRecord, hamount]
        simp [hzero]
      · have hsame : heldDeposit k
            (w.withdrawn c.owner (withdrawAmount c.amount.toNat x)).pool.investors
              = heldDeposit k w.pool.investors := by
          rw [heldDeposit, valueOf, lookup_withdrawn, if_neg hk]
          rfl
        simp [hk, hsame]

lemma nodup_depositors (h : Inv env w) : (depositors w.pool.investors).Nodup :=
  h.keys.sublist (List.filter_sublist.map byInvestor)

/-- Who is not among the depositors has nothing deposited. -/
lemma heldDeposit_eq_zero {k : Pubkey} (h : Inv env w) (hk : k ∉ depositors w.pool.investors) :
    heldDeposit k w.pool.investors = 0 := by
  rw [heldDeposit, valueOf]
  cases hx : lookup byInvestor k w.pool.investors with
  | none => rfl
  | some x =>
      obtain ⟨hmem, hkey⟩ := (lookup_eq_some_iff h.keys).mp hx
      by_contra hne
      have hpos : 0 < x.usdcDeposited := Nat.pos_of_ne_zero hne
      exact hk (List.mem_map.mpr ⟨x, List.mem_filter.mpr ⟨hmem, decide_eq_true hpos⟩, hkey⟩)

/-- Withdrawals take the same from the vault as from the deposits. -/
lemma vault_runAll {cs : List WithdrawCall} {rs : List Receipt} (hw : Backed env w)
    (hrun : runAll (WithdrawCall.run env) cs w = .ok (w', rs)) :
    Backed env w' ∧ w'.usdcVault + depositedUsdc w.pool.investors
      = w.usdcVault + depositedUsdc w'.pool.investors := by
  refine runAll_invariant (Q := fun u => Backed env u ∧
    u.usdcVault + depositedUsdc w.pool.investors
      = w.usdcVault + depositedUsdc u.pool.investors) ?_ hrun ⟨hw, rfl⟩
  rintro c - s t r ⟨hs, hvault⟩ hc
  refine ⟨(withdrawals_diamond env).keep hs hc, ?_⟩
  obtain ⟨x, hx, hle, rfl, -⟩ := (WithdrawCall.run_eq_ok (reachable_inv hs.reachable).1).mp hc
  have hrest := depositedUsdc_withdrawn hx.found hx.deposited
  simp only [WithdrawCall.owner, World.withdrawn] at hrest ⊢
  omega

/-- **Everybody leaves.**  If after a run whose filling sells are covered every depositor calls for
everything once its lock has run out, then in any order every call pays the whole deposit.  No
deposit is left, what the vault paid is what was deposited, and the lobby holds what is locked for
the running round. -/
theorem everyone_leaves {w₀ : World} {h : List (Transition.Entry World Tx)}
    {cs : List WithdrawCall} (hinit : Initial env w₀) (hrun : History env w₀ h w)
    (hcovered : ∀ e ∈ h, Covered env e.pre e.label.instr)
    (hspent : w.state.currentRoundUsdcSpent ≤ w.state.totalUsdcLockedForRound)
    (hlive : w.state.frozen = false) (hready : ∀ c ∈ cs, c.Ready w)
    (howners : (cs.map WithdrawCall.owner).Perm (depositors w.pool.investors)) :
    ∃ w', (∀ cs', cs.Perm cs' → runAll (WithdrawCall.run env) cs' w
        = .ok (w', cs'.map fun c => { usdcOut := heldDeposit c.owner w.pool.investors })) ∧
      (∀ x ∈ w'.pool.investors, x.usdcDeposited = 0) ∧
      w'.usdcVault + depositedUsdc w.pool.investors = w.usdcVault ∧
      w'.state.totalUsdcInLobby = w'.state.totalUsdcLockedForRound := by
  have hw : Backed env w := History.backed hinit hrun hcovered hspent
  have hinv := (reachable_inv hw.reachable).1
  have hnodup : (cs.map WithdrawCall.owner).Nodup :=
    howners.nodup_iff.mpr (nodup_depositors hinv)
  have hok : ∀ c ∈ cs, ∃ w', c.run env w
      = .ok (w', { usdcOut := heldDeposit c.owner w.pool.investors }) := fun c hc =>
    (hready c hc).run_total hw hlive (howners.mem_iff.mp (List.mem_map_of_mem hc))
  obtain ⟨w', hall⟩ := (withdrawals_diamond env).any_order (fun _ _ hne => Ne.symm hne) hw
    (List.pairwise_map.mp hnodup) hok
  have hcs := hall cs (.refl cs)
  obtain ⟨hw', hvault⟩ := vault_runAll hw hcs
  have hinv' := (reachable_inv hw'.reachable).1
  have hempty : ∀ x ∈ w'.pool.investors, x.usdcDeposited = 0 := by
    intro x hx
    have hheld : heldDeposit x.investor w'.pool.investors = x.usdcDeposited :=
      valueOf_of_mem hinv'.keys hx rfl
    rw [← hheld, heldDeposit_runAll hw (fun c hc => (hready c hc).all) hcs]
    split_ifs with hk
    · rfl
    · exact heldDeposit_eq_zero hinv fun hmem => hk (howners.mem_iff.mpr hmem)
  have hzero : depositedUsdc w'.pool.investors = 0 :=
    List.sum_eq_zero (List.forall_mem_map.mpr hempty)
  have hsum : poolUsdc w'.pool.investors
      = depositedUsdc w'.pool.investors + lockedUsdc w'.pool.investors := List.sum_map_add
  have hlobby := hinv'.lobby.lobby
  have hlocked := hinv'.lobby.locked
  exact ⟨w', hall, hempty, by omega, by omega⟩

/-- All three call for everything. -/
def threeExits : List WithdrawCall :=
  [23, 21, 22].map fun k => unlockedWithdrawal k 18446744073709551615

theorem everyone_leaves_second_round :
    ∃ w, Reachable (sampleEnv 9) w ∧ w.usdcVault = 42 ∧ ∃ w',
      (∀ cs', threeExits.Perm cs' → runAll (WithdrawCall.run (sampleEnv 9)) cs' w
        = .ok (w', cs'.map fun c => { usdcOut := heldDeposit c.owner w.pool.investors })) ∧
      (∀ x ∈ w'.pool.investors, x.usdcDeposited = 0) ∧
      w'.usdcVault + depositedUsdc w.pool.investors = w.usdcVault ∧
      w'.state.totalUsdcInLobby = w'.state.totalUsdcLockedForRound := by
  obtain ⟨w₀, h, w, hw₀, hh, hcheck⟩ := exists_sample_history 9 3 5000000000 secondRound
    (fun _ h w => decide (w.usdcVault = 42 ∧ w.state.frozen = false ∧
      w.state.currentRoundUsdcSpent ≤ w.state.totalUsdcLockedForRound ∧
      (10 : Pubkey) = w.state.usdcMint ∧ (∀ x ∈ w.pool.investors, x.usdcUnlockTs ≤ 200) ∧
      (∀ e ∈ h, Covered (sampleEnv 9) e.pre e.label.instr) ∧
      (threeExits.map WithdrawCall.owner).Perm (depositors w.pool.investors)))
    (by decide +kernel)
  obtain ⟨hvault, hlive, hspent, hmint, hunlocked, hcovered, howners⟩ := of_decide_eq_true hcheck
  refine ⟨w, hh.reachable hw₀, hvault,
    everyone_leaves hw₀ hh hcovered hspent hlive (fun c hc => ?_) howners⟩
  obtain ⟨k, -, rfl⟩ := List.mem_map.mp hc
  exact ⟨rfl, hmint, fun x hx _ => hunlocked x hx, rfl⟩

end Floor
