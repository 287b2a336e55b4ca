import FloorProgram.Pool.FiniteMap
import FloorProgram.Settling

/-!
# The USDC withdraw lock

A deposit made while a withdraw lock is configured moves the unlock time of the investor's record
forward, to the end of the lock at least.  Only `set_investor_usdc_unlock` moves it back, and only a
removal drops the record (`Effect.lockedUntil`): later deposits take a maximum, and rounds move USDC
in and out of a record without touching its unlock time.

So a withdrawal that succeeds waited for every deposit since the last of these two
(`withdraw_lock_respected`).
-/

namespace Floor

open Checked Keyed

variable {env : Env} {ctx : Context} {w w' : World} {i : Instruction} {r : Receipt} {k : Pubkey}

/-- The admin instructions that end the withdraw lock of an investor. -/
def Instruction.liftsLock (k : Pubkey) : Instruction → Bool
  | .SetInvestorUsdcUnlock j _ => j = k
  | .RemoveInvestorFromPool j _ => j = k
  | _ => false

/-- The investor's USDC cannot be withdrawn before `t`. -/
def LockedUntil (t : ℤ) (k : Pubkey) (w : World) : Prop :=
  ∃ x, w.poolMap k = some x ∧ t ≤ x.usdcUnlockTs

/-! ## One transaction -/

/-- The records before and after have the same keys and unlock times. -/
def SameUnlock (x x' : InvestorRecord) : Prop :=
  x'.investor = x.investor ∧ x'.usdcUnlockTs = x.usdcUnlockTs

lemma LockedUntil.of_forall₂ {t : ℤ} (h : LockedUntil t k w)
    (hpool : List.Forall₂ SameUnlock w.pool.investors w'.pool.investors) : LockedUntil t k w' := by
  obtain ⟨x, hx, ht⟩ := h
  rcases lookup_of_forall₂ (k := k) hpool (fun _ _ hs => hs.1) with
    ⟨hnone, -⟩ | ⟨y, y', hy, hy', hsame⟩
  · rw [World.poolMap, hnone] at hx
    cases hx
  · obtain rfl : y = x := Option.some.inj (hy.symm.trans hx)
    exact ⟨y', hy', hsame.2 ▸ ht⟩

lemma LockedUntil.of_update {t : ℤ} {j : Pubkey} {x y : InvestorRecord} (h : LockedUntil t k w)
    (hx : w.poolMap j = some x) (hpool : w'.poolMap = Function.update w.poolMap j (some y))
    (hle : j = k → x.usdcUnlockTs ≤ y.usdcUnlockTs) : LockedUntil t k w' := by
  obtain ⟨z, hz, ht⟩ := h
  by_cases hj : j = k
  · subst hj
    obtain rfl : x = z := Option.some.inj (hx.symm.trans hz)
    exact ⟨y, by rw [hpool, Function.update_self], ht.trans (hle rfl)⟩
  · exact ⟨z, by rw [hpool, Function.update_of_ne (Ne.symm hj)]; exact hz, ht⟩

lemma Keeps.sameUnlock (h : Keeps w w') :
    List.Forall₂ SameUnlock w.pool.investors w'.pool.investors :=
  h.pool.imp fun _ _ hm => ⟨hm.investor, hm.usdcUnlockTs⟩

lemma Settlement.sameUnlock {investors investors' : List InvestorRecord}
    {entries : List InvestorAlloc} {usdc : ℕ} (h : Settlement investors investors' entries usdc) :
    List.Forall₂ SameUnlock investors investors' :=
  h.records.imp fun _ _ hs => ⟨hs.investor, hs.usdcUnlockTs⟩

lemma Settles.lockedUntil {now t : ℤ} {mid settled : World} {entries : List InvestorAlloc}
    {usdc dust : ℕ} (hs : Settles env now w mid settled w' entries usdc dust)
    (h : LockedUntil t k w) : LockedUntil t k w' :=
  ((h.of_forall₂ hs.before.sameUnlock).of_forall₂ hs.settle.settlement.sameUnlock).of_forall₂
    hs.after.sameUnlock

/-- A deposit moves the unlock time forward. -/
lemma extendUnlock_le {now lock ts ts' : ℤ} (h : extendUnlock now lock ts = .ok ts') :
    ts ≤ ts' ∧ (0 < lock → now + lock ≤ ts') := by
  rw [extendUnlock] at h
  split_ifs at h with hlock
  · simp only [bind_eq_ok, arith_eq_ok, checkedAddI64_eq_some, pure_eq_ok] at h
    obtain ⟨_, ⟨-, rfl⟩, rfl⟩ := h
    exact ⟨le_max_left _ _, fun _ => le_max_right _ _⟩
  · simp only [Except.ok.injEq] at h
    exact ⟨h.le, fun hpos => absurd hpos hlock⟩

/-- **Only the two admin instructions end a lock.** -/
lemma Effect.lockedUntil {t : ℤ} (hinv : Inv env w)
    (hopen : w.state.roundStarted = true → RoundOpen (w.decimals env) w.state)
    (he : Effect env w ctx i w' r) (hi : i.liftsLock k = false) (h : LockedUntil t k w) :
    LockedUntil t k w' := by
  cases he with
  | Configure | ManageRent | Claim | Mint => exact h
  | SetUnlock hx =>
      have hne : ¬ _ = k := of_decide_eq_false hi
      exact h.of_update hx (lookup_modifyFirst_eq_update (fun _ => rfl) hx) fun hj => absurd hj hne
  | Deposit hnft hx hts hlobby =>
      exact h.of_update hx (lookup_modifyFirst_eq_update (fun _ => rfl) hx)
        fun _ => (extendUnlock_le hts).1
  | Join hnft hnew hcount hts hlobby =>
      obtain ⟨x, hx, ht⟩ := h
      have hne : ctx.signer ≠ k := by
        rintro rfl
        rw [World.poolMap, hnew] at hx
        cases hx
      refine ⟨x, ?_, ht⟩
      change lookup byInvestor k (w.pool.investors ++ [_]) = some x
      rwa [lookup_append_of_ne (by exact hne)]
  | Withdraw hx hts hle hvault =>
      exact h.of_update hx (lookup_modifyFirst_eq_update (fun _ => rfl) hx) fun _ => le_rfl
  | Remove hlt hr hk hlock hvault =>
      obtain ⟨x, hx, ht⟩ := h
      subst hr
      subst hk
      have hne : ¬ _ = k := of_decide_eq_false hi
      exact ⟨x, (lookup_swapRemove_of_ne hlt hinv.keys hne).trans hx, ht⟩
  | Cancel =>
      refine h.of_forall₂ ?_
      rw [List.forall₂_map_right_iff, List.forall₂_same]
      exact fun x _ => ⟨(moved_unlockedRecord x).investor, (moved_unlockedRecord x).usdcUnlockTs⟩
  | Close hstarted hsold hsettled => exact h.of_forall₂ hsettled.settlement.sameUnlock
  | Sell hopened hpaid hpart =>
      exact (h.of_forall₂ (hopened.keeps hinv).sameUnlock).of_forall₂ hpaid.keeps.sameUnlock
  | SellFull hopened hpaid hfull hsettled hallocated hnext =>
      exact (settles_of_fill hinv hopen hopened hpaid hsettled hnext).lockedUntil h
  | UpdateVolume hidle hnft hle htotal =>
      rename_i j v nft
      cases hx : lookup byInvestor j w.pool.investors with
      | none =>
          obtain ⟨x, hk, ht⟩ := h
          refine ⟨x, ?_, ht⟩
          rwa [World.poolMap, World.updateInvestor, modifyFirst_of_none hx]
      | some x =>
          exact h.of_update hx (lookup_modifyFirst_eq_update (fun _ => rfl) hx) fun _ => le_rfl

/-- A deposit under a withdraw lock locks the signer's USDC. -/
lemma Effect.deposit_lockedUntil {m : Pubkey} {n : AccountKey} {a : UInt64}
    (he : Effect env w ctx (.DepositUsdc m n a) w' r)
    (hlock : 0 < w.state.usdcWithdrawLockSeconds) :
    LockedUntil (ctx.now + w.state.usdcWithdrawLockSeconds) ctx.signer w' := by
  cases he with
  | Configure hi _ => simp [Instruction.configures] at hi
  | ManageRent hi _ => simp [Instruction.managesRent] at hi
  | Deposit hnft hx hts hlobby =>
      rename_i nft x ts
      have hmap := lookup_modifyFirst_eq_update (f := creditedRecord nft.aatVolume a.toNat ts)
        (fun _ => rfl) hx
      refine ⟨creditedRecord nft.aatVolume a.toNat ts x, ?_, (extendUnlock_le hts).2 hlock⟩
      exact (congrFun hmap ctx.signer).trans (Function.update_self _ _ _)
  | Join hnft hnew hcount hts hlobby =>
      rename_i nft ts
      refine ⟨creditedRecord nft.aatVolume a.toNat ts (InvestorRecord.empty ctx.signer), ?_,
        (extendUnlock_le hts).2 hlock⟩
      exact lookup_append_self rfl hnew

/-- A withdrawal waits for the unlock time. -/
lemma Effect.withdraw_le {t : ℤ} {m : Pubkey} {a : UInt64}
    (he : Effect env w ctx (.WithdrawUsdc m a) w' r) (h : LockedUntil t ctx.signer w) :
    t ≤ ctx.now := by
  cases he with
  | Configure hi _ => simp [Instruction.configures] at hi
  | ManageRent hi _ => simp [Instruction.managesRent] at hi
  | Withdraw hx hts hle hvault =>
      obtain ⟨x, hk, ht⟩ := h
      obtain rfl := Option.some.inj (hk.symm.trans hx)
      exact ht.trans hts

/-! ## Whole runs -/

/-- A run in which nobody lifts the lock keeps it. -/
lemma History.lockedUntil {t : ℤ} {w₀ : World} {h : List (Transition.Entry World Tx)}
    (hrun : History env w₀ h w) (hw₀ : Reachable env w₀)
    (hkeep : ∀ e ∈ h, e.label.instr.liftsLock k = false) (h₀ : LockedUntil t k w₀) :
    LockedUntil t k w := by
  induction hrun with
  | nil => exact h₀
  | @cons v u tx hist hpre hstep ih =>
      have hv : Reachable env v := hpre.reachable hw₀
      obtain ⟨hinv, hopen⟩ := reachable_inv hv
      exact (hv.effect hstep).lockedUntil hinv hopen (hkeep _ List.mem_cons_self)
        (ih fun e he => hkeep e (List.mem_cons_of_mem _ he))

/-- **The withdraw lock holds over whole runs.**  Let `e` be a deposit of an investor, made while a
withdraw lock was configured, and let nobody have set the investor's unlock time or removed the
investor since.  A withdrawal by the investor that succeeds now is at least the configured time
later than the deposit. -/
theorem withdraw_lock_respected {w₀ : World} {later earlier : List (Transition.Entry World Tx)}
    {e : Transition.Entry World Tx} {m m' : Pubkey} {n : AccountKey} {a a' : UInt64}
    (hinit : Initial env w₀) (hrun : History env w₀ (later ++ e :: earlier) w)
    (hdeposit : e.label.instr = .DepositUsdc m n a)
    (hlock : 0 < e.pre.state.usdcWithdrawLockSeconds)
    (hkeep : ∀ x ∈ later, x.label.instr.liftsLock e.label.ctx.signer = false)
    (hsigner : ctx.signer = e.label.ctx.signer)
    (hwithdraw : exec env ctx (.WithdrawUsdc m' a') w = .ok (w', r)) :
    e.label.ctx.now + e.pre.state.usdcWithdrawLockSeconds ≤ ctx.now := by
  obtain ⟨u, hearlier, hlater⟩ := hrun.of_append
  obtain ⟨hpre, hstep, rfl⟩ := hearlier.of_cons
  have hreach : Reachable env e.pre := History.reachable hpre hinit
  -- The deposit locks, the rest of the run keeps the lock, and the withdrawal waits for it.
  have hlocked : LockedUntil (e.label.ctx.now + e.pre.state.usdcWithdrawLockSeconds)
      e.label.ctx.signer e.post := by
    have heffect := hreach.effect hstep
    rw [hdeposit] at heffect
    exact heffect.deposit_lockedUntil hlock
  have hnow := History.lockedUntil hlater (hreach.step hstep) hkeep hlocked
  have hw : Reachable env w := Transition.Trace.reachable hlater (hreach.step hstep)
  have heffect := hw.effect (show Step env w ⟨ctx, .WithdrawUsdc m' a', r⟩ w' from hwithdraw)
  exact heffect.withdraw_le (hsigner ▸ hnow)

/-- A deposit under a lock of `50`, then the setting goes back to zero and the investor deposits
again. -/
def lockThenUnlock : List (Context × Instruction) :=
  [(signedBy 1 1 [], .SetUsdcWithdrawLock 50),
   (signedBy 1 1 [], .MintAatNft 21 10),
   (signedBy 21 1 [], .DepositUsdc 10 (.AatNft 21) 20),
   (signedBy 1 2 [], .SetUsdcWithdrawLock 0),
   (signedBy 21 3 [], .DepositUsdc 10 (.AatNft 21) 20)]

/-- A deposit by `k`. -/
def Tx.depositsFor (k : Pubkey) : Tx → Bool
  | ⟨ctx, .DepositUsdc _ _ _, _⟩ => decide (ctx.signer = k)
  | _ => false

lemma Tx.eq_of_depositsFor {k : Pubkey} {tx : Tx} (h : tx.depositsFor k = true) :
    ∃ m n a, tx.instr = .DepositUsdc m n a ∧ tx.ctx.signer = k := by
  rw [Tx.depositsFor.eq_def] at h
  split at h
  · exact ⟨_, _, _, rfl, of_decide_eq_true h⟩
  · cases h

/-- The first deposit of `lockThenUnlock` still counts: it can be withdrawn at `51`, not before. -/
theorem withdraw_lock_respected_later_deposit :
    ∃ (w₀ w w' : World) (r : Receipt) (later earlier : List (Transition.Entry World Tx))
      (e : Transition.Entry World Tx), Initial (sampleEnv 9) w₀ ∧
      History (sampleEnv 9) w₀ (later ++ e :: earlier) w ∧
      e.pre.state.usdcWithdrawLockSeconds = 50 ∧ w.state.usdcWithdrawLockSeconds = 0 ∧
      exec (sampleEnv 9) (signedBy 21 51 []) (.WithdrawUsdc 10 40) w = .ok (w', r) ∧
      (exec (sampleEnv 9) (signedBy 21 50 []) (.WithdrawUsdc 10 40) w).isOk = false ∧
      e.label.ctx.now + e.pre.state.usdcWithdrawLockSeconds ≤ (signedBy 21 51 []).now := by
  obtain ⟨w₀, hist, w, hinit, hrun, hw⟩ := exists_sample_history 9 3 5000000000 lockThenUnlock
    (fun _ h w => (h.drop 2).head?.any fun (e : Transition.Entry World Tx) =>
      e.label.depositsFor 21 &&
      decide (e.pre.state.usdcWithdrawLockSeconds = 50 ∧ w.state.usdcWithdrawLockSeconds = 0 ∧
        (∀ x ∈ h.take 2, x.label.instr.liftsLock 21 = false) ∧
        (exec (sampleEnv 9) (signedBy 21 51 []) (.WithdrawUsdc 10 40) w).isOk = true ∧
        (exec (sampleEnv 9) (signedBy 21 50 []) (.WithdrawUsdc 10 40) w).isOk = false))
    (by decide +kernel)
  cases hdrop : hist.drop 2 with
  | nil => simp [hdrop] at hw
  | cons e earlier =>
      have hsplit : hist = hist.take 2 ++ e :: earlier := by rw [← hdrop, List.take_append_drop]
      simp only [hdrop, List.head?_cons, Option.any_some, Bool.and_eq_true, decide_eq_true_eq] at hw
      obtain ⟨hinstr, hlock, hzero, hkeep, hok, hfails⟩ := hw
      obtain ⟨m, n, a, hdeposit, hsigner⟩ := Tx.eq_of_depositsFor hinstr
      cases hx : exec (sampleEnv 9) (signedBy 21 51 []) (.WithdrawUsdc 10 40) w with
      | error err => simp [hx, Except.isOk, Except.toBool] at hok
      | ok x =>
          obtain ⟨w', r⟩ := x
          rw [hsplit] at hrun
          refine ⟨w₀, w, w', r, _, _, e, hinit, hrun, hlock, hzero, hx, hfails, ?_⟩
          exact withdraw_lock_respected hinit hrun hdeposit (by omega) (hsigner ▸ hkeep)
            hsigner.symm hx

end Floor
