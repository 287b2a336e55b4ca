import FloorProgram.Refinement
import Mathlib.Logic.Function.Basic

/-!
# The pool is a finite map

The pool is an array in which the program looks a key up from the front, appends at the end, and
removes by moving the last slot into the gap.  In every reachable world its keys are distinct, so it
is a finite map (`World.poolMap`), and each instruction that names an investor changes the map at
that key only (`pool_is_finite_map`).

`DepositAccepted` collects what `deposit_usdc` demands besides room in the pool.
-/

namespace Floor

open Checked Keyed

/-! ## The abstraction -/

/-- The pool as a map from keys to records. -/
def World.poolMap (w : World) : Pubkey → Option InvestorRecord :=
  fun k => lookup byInvestor k w.pool.investors

section Map

variable {investors : List InvestorRecord} {k : Pubkey}

/-- Rewriting a slot updates one key. -/
lemma lookup_modifyFirst_eq_update {f : InvestorRecord → InvestorRecord} {r : InvestorRecord}
    (hf : ∀ r, (f r).investor = r.investor) (hr : lookup byInvestor k investors = some r) :
    (fun j => lookup byInvestor j (modifyFirst byInvestor k f investors))
      = Function.update (fun j => lookup byInvestor j investors) k (some (f r)) := by
  funext j
  rw [lookup_modifyFirst hf]
  by_cases hj : j = k
  · subst hj
    rw [if_pos rfl, hr, Function.update_self]
    rfl
  · rw [if_neg hj, Function.update_of_ne hj]

/-- A new slot at the end inserts one key. -/
lemma lookup_append_eq_update {r : InvestorRecord}
    (hnew : lookup byInvestor r.investor investors = none) :
    (fun j => lookup byInvestor j (investors ++ [r]))
      = Function.update (fun j => lookup byInvestor j investors) r.investor (some r) := by
  funext j
  by_cases hj : j = r.investor
  · subst hj
    rw [Function.update_self]
    exact lookup_append_self rfl hnew
  · rw [Function.update_of_ne hj]
    exact lookup_append_of_ne fun h => hj h.symm

/-- Moving the last slot into slot `i` erases the key of slot `i`, wherever that is. -/
lemma lookup_swapRemove_eq_update {i : ℕ} (hi : i < investors.length)
    (hkeys : NodupKeys byInvestor investors) :
    (fun j => lookup byInvestor j (swapRemove i investors))
      = Function.update (fun j => lookup byInvestor j investors) investors[i].investor none := by
  funext j
  by_cases hj : j = investors[i].investor
  · subst hj
    rw [Function.update_self]
    exact lookup_swapRemove_self hi hkeys
  · rw [Function.update_of_ne hj]
    exact lookup_swapRemove_of_ne hi hkeys fun h => hj h.symm

end Map

/-! ## Deposits -/

/-- The record a deposit starts from. -/
def World.recordFor (w : World) (k : Pubkey) : InvestorRecord :=
  (w.poolMap k).getD (InvestorRecord.empty k)

/-- What `deposit_usdc` demands besides room in the pool, with the NFT it reads and the unlock time
it computes. -/
structure DepositAccepted (ctx : Context) (usdcMint : Pubkey) (aatNft : AccountKey) (usdcAmount : ℕ)
    (w : World) (nft : AatNft) (ts : ℤ) : Prop where
  live : w.state.frozen = false
  amount : 0 < usdcAmount
  mint : usdcMint = w.state.usdcMint
  account : AccountKey.AatNft ctx.signer = aatNft
  found : lookup nftHolder ctx.signer w.aatNfts = some nft
  volume : 0 < nft.aatVolume
  held : nft.amount = 1
  transfer : usdcAmount ≤ ctx.payerBalance ∧ ctx.cpiAccepts = true
  vault : w.usdcVault + usdcAmount < 2 ^ 64
  deposited : (w.recordFor ctx.signer).usdcDeposited + usdcAmount < 2 ^ 64
  unlock : extendUnlock ctx.now w.state.usdcWithdrawLockSeconds
    (w.recordFor ctx.signer).usdcUnlockTs = .ok ts
  lobby : w.state.totalUsdcInLobby + usdcAmount < 2 ^ 64

/-- Write a record to the slot of its key, or to a new one. -/
def putRecord (k : Pubkey) (r : InvestorRecord) (investors : List InvestorRecord) :
    List InvestorRecord :=
  match lookup byInvestor k investors with
  | some _ => modifyFirst byInvestor k (fun _ => r) investors
  | none => investors ++ [r]

lemma depositInto_eq (now lock : ℤ) (v a : ℕ) (w : World) (k : Pubkey) :
    depositInto now lock k v a w.pool.investors = (do
      let r ← creditDeposit now lock v a (w.recordFor k)
      .ok (putRecord k r w.pool.investors)) := by
  rw [depositInto, World.recordFor, World.poolMap]
  split <;> rename_i hr <;> simp only [hr, putRecord] <;> rfl

/-- **A deposit is insert-or-update.** -/
lemma lookup_putRecord {k : Pubkey} {r : InvestorRecord} {w : World} (hk : r.investor = k) :
    (fun j => lookup byInvestor j (putRecord k r w.pool.investors))
      = Function.update w.poolMap k (some r) := by
  rw [putRecord]
  split
  · rename_i x hx
    have hsame : r = { r with investor := x.investor } := by
      rw [show x.investor = r.investor from (lookup_key hx).trans hk.symm]
    rw [modifyFirst_congr (g := fun y => { r with investor := y.investor }) hx hsame]
    exact (lookup_modifyFirst_eq_update (f := fun y => { r with investor := y.investor })
      (fun _ => rfl) hx).trans
      (congrArg (fun y => Function.update w.poolMap k (some y)) hsame.symm)
  · rename_i hnew
    subst hk
    exact lookup_append_eq_update hnew

lemma World.recordFor_investor (w : World) (k : Pubkey) : (w.recordFor k).investor = k := by
  rw [World.recordFor]
  cases hr : w.poolMap k with
  | none => rfl
  | some r => exact lookup_key hr

section Instructions

variable {env : Env} {ctx : Context} {w w' : World} {r : Receipt}

/-- **A deposit is insert-or-update** of the signer's key. -/
lemma depositUsdc_poolMap {m : Pubkey} {n : AccountKey} {a : ℕ}
    (h : depositUsdc ctx m n a w = .ok (w', r)) :
    ∃ nft ts, DepositAccepted ctx m n a w nft ts ∧
      (w.pool.count < MAX_INVESTORS ∨ (w.poolMap ctx.signer).isSome = true) ∧
      w'.poolMap = Function.update w.poolMap ctx.signer
        (some (creditedRecord nft.aatVolume a ts (w.recordFor ctx.signer))) := by
  simp only [depositUsdc, depositInto_eq, bind_eq_ok, ensure_eq_ok,
    verifyAatNftAndGetAllocation_eq_ok, transferIn_eq_ok, arith_eq_ok, checkedAdd_eq_some,
    creditDeposit_eq_ok, pure_eq_ok, Prod.mk.injEq, Except.ok.injEq] at h
  obtain ⟨_, -, _, hlive, _, hamount, _, hmint, nft, ⟨hkey, hnft⟩, _, hvol, _, hheld, _, hroom, _,
    ⟨htransfer, hvault, rfl⟩, _, ⟨_, ⟨hfit, ts, hts, rfl⟩, rfl⟩, _, ⟨hlobby, rfl⟩, rfl, rfl⟩ := h
  exact ⟨nft, ts, ⟨hlive, hamount, hmint, hkey, hnft, hvol, hheld, htransfer, hvault, hfit, hts,
    hlobby⟩, hroom, lookup_putRecord (w.recordFor_investor ctx.signer)⟩

/-- It returns if its demands are met and there is a slot for the investor. -/
lemma depositUsdc_total {m : Pubkey} {n : AccountKey} {a : ℕ} {nft : AatNft} {ts : ℤ}
    (h : DepositAccepted ctx m n a w nft ts)
    (hroom : w.pool.count < MAX_INVESTORS ∨ (w.poolMap ctx.signer).isSome = true) :
    ∃ w' r, depositUsdc ctx m n a w = .ok (w', r) := by
  simp only [depositUsdc, depositInto_eq, bind_eq_ok, ensure_eq_ok, associatedAatAccount_eq_ok,
    verifyAatNftAndGetAllocation_eq_ok, transferIn_eq_ok, arith_eq_ok, checkedAdd_eq_some,
    creditDeposit_eq_ok, pure_eq_ok, Prod.mk.injEq, Except.ok.injEq]
  have hminted : (lookup nftHolder ctx.signer w.aatNfts).isSome = true := by
    rw [h.found]
    rfl
  exact ⟨_, _, (), .inl ⟨h.account, hminted⟩, (), h.live, (), h.amount, (), h.mint, nft,
    ⟨h.account, h.found⟩, (), h.volume, (), h.held, (), hroom, _, ⟨h.transfer, h.vault, rfl⟩, _,
    ⟨_, ⟨h.deposited, ts, h.unlock, rfl⟩, rfl⟩, _, ⟨h.lobby, rfl⟩, rfl, rfl⟩

/-! ## The other instructions -/

/-- A withdrawal updates the signer's key by the amount it pays. -/
lemma Effect.withdraw_poolMap {m : Pubkey} {a : UInt64}
    (he : Effect env w ctx (.WithdrawUsdc m a) w' r) :
    ∃ x, w.poolMap ctx.signer = some x ∧ 0 < withdrawAmount a.toNat x ∧
      withdrawAmount a.toNat x ≤ x.usdcDeposited ∧ r = { usdcOut := withdrawAmount a.toNat x } ∧
      w'.poolMap = Function.update w.poolMap ctx.signer
        (some (debitedRecord (withdrawAmount a.toNat x) x)) := by
  cases he with
  | Configure hi _ => simp [Instruction.configures] at hi
  | ManageRent hi _ => simp [Instruction.managesRent] at hi
  | Withdraw hx _ hle _ hamount hpos =>
      subst hamount
      exact ⟨_, hx, hpos, hle, rfl, lookup_modifyFirst_eq_update (fun _ => rfl) hx⟩

/-- Setting an unlock time updates the key the admin names. -/
lemma Effect.setUnlock_poolMap {k : Pubkey} {ts : Int64}
    (he : Effect env w ctx (.SetInvestorUsdcUnlock k ts) w' r) :
    ∃ x, w.poolMap k = some x ∧
      w'.poolMap = Function.update w.poolMap k (some (relockedRecord ts.toInt x)) := by
  cases he with
  | Configure hi _ => simp [Instruction.configures] at hi
  | ManageRent hi _ => simp [Instruction.managesRent] at hi
  | SetUnlock hx => exact ⟨_, hx, lookup_modifyFirst_eq_update (fun _ => rfl) hx⟩

/-- A removal erases the key the admin names, and one slot. -/
lemma Effect.remove_poolMap {k m : Pubkey} (hkeys : NodupKeys byInvestor w.pool.investors)
    (he : Effect env w ctx (.RemoveInvestorFromPool k m) w' r) :
    ∃ x, w.poolMap k = some x ∧ w'.poolMap = Function.update w.poolMap k none ∧
      w'.pool.count + 1 = w.pool.count := by
  cases he with
  | Configure hi _ => simp [Instruction.configures] at hi
  | ManageRent hi _ => simp [Instruction.managesRent] at hi
  | Remove hi hr hk _ _ =>
      subst hr
      subst hk
      refine ⟨_, (lookup_eq_some_iff hkeys).mpr ⟨List.getElem_mem hi, rfl⟩,
        lookup_swapRemove_eq_update hi hkeys, ?_⟩
      have := (perm_cons_swapRemove hi).length_eq
      simpa [InvestorPool.count] using this.symm

end Instructions

/-- **The investor pool is a finite map.**  In every reachable world it holds at most
`MAX_INVESTORS` records with distinct keys.  `deposit_usdc` inserts or updates the signer's key; it
returns exactly when its other demands are met and the pool has a free slot or the key is there, so
at a full pool exactly when the key is there.  `withdraw_usdc` and `set_investor_usdc_unlock` update
one key, the first by the amount asked for, or the whole deposit, which is what it pays; and
`remove_investor_from_pool` erases one.  All other keys keep their records. -/
theorem pool_is_finite_map {env : Env} {w : World} (h : Reachable env w) :
    w.pool.count ≤ MAX_INVESTORS ∧ NodupKeys byInvestor w.pool.investors ∧
    (∀ ctx m n (a : UInt64),
      ((∃ w' r, exec env ctx (.DepositUsdc m n a) w = .ok (w', r)) ↔
        (∃ nft ts, DepositAccepted ctx m n a.toNat w nft ts) ∧
          (w.pool.count < MAX_INVESTORS ∨ (w.poolMap ctx.signer).isSome = true)) ∧
      (w.pool.count = MAX_INVESTORS → ∀ nft ts, DepositAccepted ctx m n a.toNat w nft ts →
        ((∃ w' r, exec env ctx (.DepositUsdc m n a) w = .ok (w', r)) ↔
          (w.poolMap ctx.signer).isSome = true)) ∧
      ∀ w' r, exec env ctx (.DepositUsdc m n a) w = .ok (w', r) →
        ∃ nft ts, DepositAccepted ctx m n a.toNat w nft ts ∧
          w'.poolMap = Function.update w.poolMap ctx.signer
            (some (creditedRecord nft.aatVolume a.toNat ts (w.recordFor ctx.signer)))) ∧
    (∀ ctx m a w' r, exec env ctx (.WithdrawUsdc m a) w = .ok (w', r) →
      ∃ x, w.poolMap ctx.signer = some x ∧ 0 < withdrawAmount a.toNat x ∧
        withdrawAmount a.toNat x ≤ x.usdcDeposited ∧
        r = { usdcOut := withdrawAmount a.toNat x } ∧
        w'.poolMap = Function.update w.poolMap ctx.signer
          (some (debitedRecord (withdrawAmount a.toNat x) x))) ∧
    (∀ ctx k ts w' r, exec env ctx (.SetInvestorUsdcUnlock k ts) w = .ok (w', r) →
      ∃ x, w.poolMap k = some x ∧
        w'.poolMap = Function.update w.poolMap k (some (relockedRecord ts.toInt x))) ∧
    (∀ ctx k m w' r, exec env ctx (.RemoveInvestorFromPool k m) w = .ok (w', r) →
      ∃ x, w.poolMap k = some x ∧ w'.poolMap = Function.update w.poolMap k none ∧
        w'.pool.count + 1 = w.pool.count) := by
  obtain ⟨hinv, -⟩ := reachable_inv h
  have heffect : ∀ {ctx i w' r}, exec env ctx i w = .ok (w', r) → Effect env w ctx i w' r :=
    fun {ctx i w' r} hx => h.effect (show Step env w ⟨ctx, i, r⟩ w' from hx)
  refine ⟨hinv.count_le, hinv.keys, fun ctx m n a => ?_, fun ctx m a w' r hx => ?_,
    fun ctx k ts w' r hx => ?_, fun ctx k m w' r hx => ?_⟩
  · have hiff : (∃ w' r, exec env ctx (.DepositUsdc m n a) w = .ok (w', r)) ↔
        (∃ nft ts, DepositAccepted ctx m n a.toNat w nft ts) ∧
          (w.pool.count < MAX_INVESTORS ∨ (w.poolMap ctx.signer).isSome = true) := by
      constructor
      · rintro ⟨w', r, hx⟩
        obtain ⟨nft, ts, haccepted, hroom, -⟩ := depositUsdc_poolMap hx
        exact ⟨⟨nft, ts, haccepted⟩, hroom⟩
      · rintro ⟨⟨nft, ts, haccepted⟩, hroom⟩
        exact depositUsdc_total haccepted hroom
    refine ⟨hiff, fun hfull nft ts haccepted => ?_, fun w' r hx => ?_⟩
    · rw [hiff, hfull]
      simp only [Nat.lt_irrefl, false_or]
      exact and_iff_right ⟨nft, ts, haccepted⟩
    · obtain ⟨nft, ts, haccepted, -, hmap⟩ := depositUsdc_poolMap hx
      exact ⟨nft, ts, haccepted, hmap⟩
  · exact (heffect hx).withdraw_poolMap
  · exact (heffect hx).setUnlock_poolMap
  · exact (heffect hx).remove_poolMap hinv.keys

/-- The first of three investors is removed, and the last one moves into its slot. -/
theorem pool_is_finite_map_removal :
    ∃ w w' r, Reachable (sampleEnv 9) w ∧
      exec (sampleEnv 9) (signedBy 1 2 []) (.RemoveInvestorFromPool 21 10) w = .ok (w', r) ∧
      w.pool.investors.map byInvestor = [21, 22, 23] ∧
      w'.pool.investors.map byInvestor = [23, 22] ∧
      w'.poolMap = Function.update w.poolMap 21 none := by
  obtain ⟨w₀, hist, w, hinit, hrun, hw⟩ := exists_sample_history 9 3 5000000000
    (threeInvestors 10 20 ++ [(signedBy 1 2 [], .UpdateAatVolume 21 0)])
    (fun _ _ w => w.pool.investors.map byInvestor = [21, 22, 23] ∧
      ((exec (sampleEnv 9) (signedBy 1 2 []) (.RemoveInvestorFromPool 21 10) w).toOption.map
        fun x => x.1.pool.investors.map byInvestor) = some [23, 22])
    (by decide +kernel)
  have hreach := hrun.reachable hinit
  simp only [decide_eq_true_eq] at hw
  obtain ⟨hkeys, hremoved⟩ := hw
  obtain ⟨⟨w', r⟩, hx, hkeys'⟩ := Option.map_eq_some_iff.mp hremoved
  have hok : exec (sampleEnv 9) (signedBy 1 2 []) (.RemoveInvestorFromPool 21 10) w
      = .ok (w', r) := by
    cases hexec : exec (sampleEnv 9) (signedBy 1 2 []) (.RemoveInvestorFromPool 21 10) w with
    | error e => simp [hexec, Except.toOption] at hx
    | ok x => simpa [hexec, Except.toOption] using hx
  obtain ⟨-, -, -, -, -, hremove⟩ := pool_is_finite_map hreach
  obtain ⟨-, -, hmap, -⟩ := hremove _ _ _ _ _ hok
  exact ⟨w, w', r, hreach, hok, hkeys, hkeys', hmap⟩

end Floor
