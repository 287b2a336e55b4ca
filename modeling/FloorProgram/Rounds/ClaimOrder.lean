import FloorProgram.Core.Diamond
import FloorProgram.Market.Abstraction
import FloorProgram.Accounting.Conservation

/-!
# Claims in any order

Claims of different entries do not get in each other's way.  What a claim does to the accounts of
settled rounds is written here in one form for both of its branches: clear the entry, then drop the
accounts in which nothing is left (`claimAccounts`).  In that form two claims commute, whichever of
them closes an account.

* `ClaimDone` — a claim as a change of the world.  The lamports of a dropped account go to the
  treasury, so treasury and accounts together keep theirs.
* `claims_diamond` — claims of different entries are independent.
* `claims_any_order` — claims that succeed one by one succeed in every order and end in one world.
* `claims_drain` — once everybody has claimed, the accounts are gone and the vault holds what is in
  the running round and the carryover.
-/

namespace Floor

open Checked Keyed Search

variable {env : Env} {w w' w'' : World} {i j : ℕ} {k k' : Pubkey}
  {l : List (Account RoundLockedWaln)}

/-! ## The accounts after a claim -/

/-- Clear the entry of `k` if this is the account of round `i`. -/
def clearEntry (i : ℕ) (k : Pubkey) (a : Account RoundLockedWaln) : Account RoundLockedWaln :=
  if lockedIndex a = i then clearedAccount k a else a

/-- Something is left to claim. -/
def hasEntries (a : Account RoundLockedWaln) : Bool := 0 < unclaimed a.data.investors

/-- The accounts after `k` has claimed from round `i`. -/
def claimAccounts (i : ℕ) (k : Pubkey) (l : List (Account RoundLockedWaln)) :
    List (Account RoundLockedWaln) := (l.map (clearEntry i k)).filter hasEntries

@[simp] lemma lockedIndex_clearEntry (a : Account RoundLockedWaln) :
    lockedIndex (clearEntry i k a) = lockedIndex a := by
  rw [clearEntry]
  split_ifs <;> rfl

@[simp] lemma lamports_clearEntry (a : Account RoundLockedWaln) :
    (clearEntry i k a).lamports = a.lamports := by
  rw [clearEntry]
  split_ifs <;> rfl

@[simp] lemma clearedAlloc_investor (a : InvestorAlloc) :
    InvestorAlloc.investor (clearedAlloc a) = InvestorAlloc.investor a := rfl

@[simp] lemma length_clearEntry (a : Account RoundLockedWaln) :
    (clearEntry i k a).data.investors.length = a.data.investors.length := by
  rw [clearEntry]
  split_ifs
  · have hkeys : (clearedAccount k a).data.investors.map InvestorAlloc.investor
        = a.data.investors.map InvestorAlloc.investor := map_modifyFirst clearedAlloc_investor
    simpa using congrArg List.length hkeys
  · rfl

lemma clearEntry_of_ne {a : Account RoundLockedWaln} (h : lockedIndex a ≠ i) :
    clearEntry i k a = a := if_neg h

/-- Clearing two entries of one list, in either order. -/
lemma modifyFirst_clearedAlloc_comm (entries : List InvestorAlloc) :
    modifyFirst InvestorAlloc.investor k clearedAlloc
        (modifyFirst InvestorAlloc.investor k' clearedAlloc entries)
      = modifyFirst InvestorAlloc.investor k' clearedAlloc
        (modifyFirst InvestorAlloc.investor k clearedAlloc entries) := by
  induction entries with
  | nil => rfl
  | cons a entries ih =>
      by_cases hk : a.investor = k <;> by_cases hk' : a.investor = k'
      · rw [← hk, ← hk']
      · subst hk
        simp [modifyFirst, hk']
      · subst hk'
        simp [modifyFirst, hk]
      · simp [modifyFirst, hk, hk', ih]

lemma clearedAccount_comm (a : Account RoundLockedWaln) :
    clearedAccount k (clearedAccount k' a) = clearedAccount k' (clearedAccount k a) := by
  simp only [clearedAccount, modifyFirst_clearedAlloc_comm (k := k)]

lemma clearEntry_comm (a : Account RoundLockedWaln) :
    clearEntry i k (clearEntry j k' a) = clearEntry j k' (clearEntry i k a) := by
  have hindex : ∀ k, lockedIndex (clearedAccount k a) = lockedIndex a := fun _ => rfl
  by_cases hi : lockedIndex a = i
  · by_cases hj : lockedIndex a = j
    · subst hi hj
      simp only [clearEntry, hindex, if_true]
      exact clearedAccount_comm a
    · rw [clearEntry_of_ne hj, clearEntry_of_ne (a := clearEntry i k a)]
      rwa [lockedIndex_clearEntry]
  · rw [clearEntry_of_ne hi, clearEntry_of_ne (a := clearEntry j k' a)]
    rwa [lockedIndex_clearEntry]

/-- Clearing entries leaves fewer of them. -/
lemma unclaimed_clear_le (entries : List InvestorAlloc) :
    unclaimed (modifyFirst InvestorAlloc.investor k clearedAlloc entries) ≤ unclaimed entries := by
  induction entries with
  | nil => rfl
  | cons a entries ih =>
      by_cases hk : a.investor = k
      · simp only [modifyFirst, if_pos hk, unclaimed, List.filter_cons, clearedAlloc]
        split_ifs <;> simp_all
      · simp only [modifyFirst, if_neg hk, unclaimed, List.filter_cons] at ih ⊢
        split_ifs <;> simpa using ih

lemma hasEntries_of_clearEntry {a : Account RoundLockedWaln}
    (h : hasEntries (clearEntry i k a) = true) : hasEntries a = true := by
  rw [clearEntry] at h
  split_ifs at h
  · rw [hasEntries, decide_eq_true_eq] at h ⊢
    exact h.trans_le (unclaimed_clear_le _)
  · exact h

/-- An account without entries is dropped now or later. -/
lemma filter_map_filter (l : List (Account RoundLockedWaln)) :
    ((l.filter hasEntries).map (clearEntry i k)).filter hasEntries
      = (l.map (clearEntry i k)).filter hasEntries := by
  induction l with
  | nil => rfl
  | cons a l ih =>
      cases ha : hasEntries a with
      | true =>
          rw [List.filter_cons_of_pos ha, List.map_cons, List.map_cons, List.filter_cons,
            List.filter_cons, ih]
      | false =>
          have hclear : hasEntries (clearEntry i k a) ≠ true := fun h =>
            absurd (hasEntries_of_clearEntry h) (by simp [ha])
          rw [List.filter_cons_of_neg (by simp [ha]), List.map_cons, List.filter_cons_of_neg hclear,
            ih]

/-- **Two claims commute** on the accounts. -/
theorem claimAccounts_comm (l : List (Account RoundLockedWaln)) :
    claimAccounts i k (claimAccounts j k' l) = claimAccounts j k' (claimAccounts i k l) := by
  rw [claimAccounts, claimAccounts, claimAccounts, claimAccounts, filter_map_filter,
    filter_map_filter, List.map_map, List.map_map]
  exact congrArg _ (List.map_congr_left fun a _ => clearEntry_comm a)

/-- Whichever way a claim leaves the account. -/
lemma Claimed.claimAccounts_eq {ctx : Context} {account : Account RoundLockedWaln}
    {a : InvestorAlloc} {r : Receipt} (h : Inv env w) (hc : Claimed w ctx i account a w' r) :
    w'.roundLockedWaln = claimAccounts i ctx.signer w.roundLockedWaln := by
  have hsame : ∀ b ∈ w.roundLockedWaln, lockedIndex b = i → b = account := fun b hb hi =>
    eq_of_key_eq h.waln.indices hb (lookup_mem hc.found) (hi.trans (lookup_key hc.found).symm)
  have hcount := unclaimed_cleared hc.entry hc.positive
  have hopen : ∀ b ∈ w.roundLockedWaln, hasEntries b = true := fun b hb => by
    have hb := h.waln.accounts b hb
    rw [hasEntries, decide_eq_true_eq, ← hb.remaining]
    exact hb.remaining_pos
  rcases hc.accounts with ⟨hlast, haccounts⟩ | ⟨hmore, haccounts⟩
  · rw [haccounts, claimAccounts, List.filter_map]
    have hfilter : w.roundLockedWaln.filter (hasEntries ∘ clearEntry i ctx.signer)
        = w.roundLockedWaln.filter fun b => lockedIndex b ≠ i := by
      refine List.filter_congr fun b hb => ?_
      by_cases hi : lockedIndex b = i
      · obtain rfl := hsame b hb hi
        have hzero : unclaimed (clearedAccount ctx.signer b).data.investors = 0 :=
          Nat.succ_injective (hcount.trans hlast)
        simp [clearEntry, hi, hasEntries, hzero]
      · simp [clearEntry_of_ne hi, hopen b hb, hi]
    rw [hfilter]
    refine (List.map_id _).symm.trans (List.map_congr_left fun b hb => ?_)
    exact (clearEntry_of_ne (by simpa using (List.mem_filter.mp hb).2)).symm
  · rw [haccounts, modifyFirst_eq_map h.waln.indices]
    refine (List.filter_eq_self.mpr fun b hb => ?_).symm
    obtain ⟨c, hc', rfl⟩ := List.mem_map.mp hb
    by_cases hi : lockedIndex c = i
    · obtain rfl := hsame c hc' hi
      rw [if_pos hi, hasEntries, decide_eq_true_eq]
      show 0 < unclaimed (modifyFirst InvestorAlloc.investor ctx.signer clearedAlloc _)
      omega
    · rw [if_neg hi]
      exact hopen c hc'

/-! ## One claim -/

/-- A call of `claim_waln`. -/
structure ClaimCall where
  ctx : Context
  walnMint : Pubkey
  roundIndex : UInt64

/-- The entry it is about. -/
def ClaimCall.entry (c : ClaimCall) : ℕ × Pubkey := (c.roundIndex.toNat, c.ctx.signer)

/-- Execute the call. -/
def ClaimCall.run (env : Env) (c : ClaimCall) (w : World) : Except TxError (World × Receipt) :=
  exec env c.ctx (.ClaimWaln c.walnMint c.roundIndex) w

/-- The lamports the accounts of settled rounds hold. -/
def lockedLamports (l : List (Account RoundLockedWaln)) : ℕ := (l.map Account.lamports).sum

/-- What a call demands of the world. -/
structure Claimable (env : Env) (c : ClaimCall) (w : World) (account : Account RoundLockedWaln)
    (a : InvestorAlloc) : Prop where
  found : lookup lockedIndex c.roundIndex.toNat w.roundLockedWaln = some account
  bump : account.data.bump = env.bump (.RoundLockedWaln c.roundIndex.toNat)
  live : w.state.frozen = false
  mint : c.walnMint = w.state.walnMint
  unlock : account.data.unlock ≤ c.ctx.now
  entry : lookup InvestorAlloc.investor c.ctx.signer account.data.investors = some a
  positive : 0 < a.walnAmount
  hooks : claimHookAccounts env c.ctx c.walnMint = .ok ()
  accepts : c.ctx.cpiAccepts = true

/-- What a call does to the world. -/
structure ClaimDone (c : ClaimCall) (amount : ℕ) (w w' : World) : Prop where
  state : w'.state = w.state
  pool : w'.pool = w.pool
  usdcVault : w'.usdcVault = w.usdcVault
  roundRecords : w'.roundRecords = w.roundRecords
  aatNfts : w'.aatNfts = w.aatNfts
  accounts : w'.roundLockedWaln = claimAccounts c.roundIndex.toNat c.ctx.signer w.roundLockedWaln
  walnVault : w'.walnVault + amount = w.walnVault
  lamports : w'.treasury + lockedLamports w'.roundLockedWaln
    = w.treasury + lockedLamports w.roundLockedWaln

variable {c d : ClaimCall} {account : Account RoundLockedWaln} {a b : InvestorAlloc} {r : Receipt}

/-- Closing an account moves its lamports to the treasury. -/
lemma storeClaimed_lamports {treasury treasury' : ℕ} {rlw : RoundLockedWaln}
    {accounts : List (Account RoundLockedWaln)} (hindices : NodupKeys lockedIndex l)
    (hfound : lookup lockedIndex i l = some account)
    (h : storeClaimed treasury i account rlw l = .ok (treasury', accounts)) :
    treasury' + lockedLamports accounts = treasury + lockedLamports l := by
  rw [storeClaimed] at h
  split_ifs at h with h0
  · simp only [bind_eq_ok, arith_eq_ok, checkedAdd_eq_some, pure_eq_ok, Prod.mk.injEq] at h
    obtain ⟨_, ⟨-, rfl⟩, rfl, rfl⟩ := h
    have hsum := sum_filter_ne Account.lamports hindices hfound
    simp only [lockedLamports] at hsum ⊢
    omega
  · obtain ⟨rfl, rfl⟩ := Prod.mk.inj (Except.ok.inj h)
    have hsame : (modifyFirst lockedIndex i (fun a => { a with data := rlw }) l).map
        Account.lamports = l.map Account.lamports := map_modifyFirst fun _ => rfl
    rw [lockedLamports, hsame, lockedLamports]

/-- **A claim, taken apart.** -/
lemma ClaimCall.run_ok (h : Inv env w) (hx : c.run env w = .ok (w', r)) :
    ∃ account a, Claimable env c w account a ∧ ClaimDone c a.walnAmount w w' ∧
      r = { walnOut := a.walnAmount } := by
  have hcode := hx
  simp only [ClaimCall.run, exec, claimWaln, bind_eq_ok, okOr_eq_ok, require_eq_ok, ensure_eq_ok,
    Prod.exists, transferOut_eq_ok, pure_eq_ok, Prod.mk.injEq] at hcode
  obtain ⟨account, hfound, _, hbump, _, hlive, _, hmint, amount, rlw, -, _, hhooks, _,
    ⟨haccepts, hvault, rfl⟩, treasury, accounts, hstore, rfl, rfl⟩ := hcode
  obtain ⟨account', a, hc⟩ := (claimWaln_effect hx).claimed h
  obtain rfl : account = account' := Option.some.inj (hfound.symm.trans hc.found)
  obtain rfl : amount = a.walnAmount := congrArg Receipt.walnOut hc.receipt
  refine ⟨account, a, ⟨hfound, hbump, hlive, hmint, hc.unlock, hc.entry, hc.positive, hhooks,
    haccepts⟩, ⟨rfl, rfl, rfl, rfl, rfl, hc.claimAccounts_eq h, Nat.sub_add_cancel hvault, ?_⟩, rfl⟩
  exact storeClaimed_lamports h.waln.indices hfound hstore

/-- **A claim succeeds** if the world meets its demands and the lamports in it are fewer than
`2 ^ 64`. -/
lemma Claimable.run_total (h : Inv env w)
    (hlamports : w.treasury + lockedLamports w.roundLockedWaln < 2 ^ 64)
    (hc : Claimable env c w account a) :
    ∃ w', c.run env w = .ok (w', { walnOut := a.walnAmount }) := by
  have hle : account.lamports ≤ lockedLamports w.roundLockedWaln :=
    List.single_le_sum (fun _ _ => Nat.zero_le _) _ (List.mem_map_of_mem (lookup_mem hc.found))
  exact claimWaln_total h hc.found hc.bump hc.live hc.mint hc.unlock hc.entry hc.positive hc.hooks
    hc.accepts (by omega)

/-! ## Two claims -/

/-- Two claims one after the other, in either order. -/
lemma ClaimDone.comm {x y : ℕ} {u v v' : World} (hc : ClaimDone c x w w')
    (hd : ClaimDone d y w' v) (hd' : ClaimDone d y w u) (hc' : ClaimDone c x u v') : v = v' := by
  have hvault : v.walnVault = v'.walnVault := by
    have h₁ := hc.walnVault
    have h₂ := hd.walnVault
    have h₃ := hd'.walnVault
    have h₄ := hc'.walnVault
    omega
  have hlamports : v.treasury + lockedLamports v.roundLockedWaln
      = v'.treasury + lockedLamports v'.roundLockedWaln := by
    rw [hd.lamports, hc.lamports, hc'.lamports, hd'.lamports]
  have haccounts : v.roundLockedWaln = v'.roundLockedWaln := by
    rw [hd.accounts, hc.accounts, hc'.accounts, hd'.accounts, claimAccounts_comm]
  have hstate : v.state = v'.state := by rw [hd.state, hc.state, hc'.state, hd'.state]
  have hpool : v.pool = v'.pool := by rw [hd.pool, hc.pool, hc'.pool, hd'.pool]
  have husdc : v.usdcVault = v'.usdcVault := by
    rw [hd.usdcVault, hc.usdcVault, hc'.usdcVault, hd'.usdcVault]
  have hrecords : v.roundRecords = v'.roundRecords := by
    rw [hd.roundRecords, hc.roundRecords, hc'.roundRecords, hd'.roundRecords]
  have hnfts : v.aatNfts = v'.aatNfts := by rw [hd.aatNfts, hc.aatNfts, hc'.aatNfts, hd'.aatNfts]
  rw [haccounts] at hlamports
  cases v
  cases v'
  simp only [World.mk.injEq] at *
  exact ⟨hstate, hpool, husdc, hvault, Nat.add_right_cancel hlamports, hrecords, haccounts, hnfts⟩

lemma clearedAccount_entry_of_ne (hne : k ≠ k') (a : Account RoundLockedWaln) :
    lookup InvestorAlloc.investor k' (clearedAccount k a).data.investors
      = lookup InvestorAlloc.investor k' a.data.investors := by
  show lookup InvestorAlloc.investor k'
    (modifyFirst InvestorAlloc.investor k clearedAlloc a.data.investors) = _
  have hlookup := lookup_modifyFirst (k := k) (l := a.data.investors) clearedAlloc_investor k'
  rwa [if_neg (Ne.symm hne)] at hlookup

/-- An entry that is not the one claimed is still there afterwards. -/
lemma clearEntry_entry (hne : (i, k) ≠ (lockedIndex account, k')) :
    lookup InvestorAlloc.investor k' (clearEntry i k account).data.investors
      = lookup InvestorAlloc.investor k' account.data.investors := by
  rw [clearEntry]
  split_ifs with hi
  · refine clearedAccount_entry_of_ne (fun hk => hne ?_) account
    rw [hi, hk]
  · rfl

lemma unclaimed_pos {entries : List InvestorAlloc}
    (h : lookup InvestorAlloc.investor k entries = some a) (hpos : 0 < a.walnAmount) :
    0 < unclaimed entries :=
  List.length_pos_of_mem (List.mem_filter.mpr ⟨lookup_mem h, decide_eq_true hpos⟩)

/-- A claim of another entry can still be made. -/
lemma Claimable.after {x : ℕ} (h' : Inv env w') (hd : Claimable env d w account b)
    (hc : ClaimDone c x w w') (hne : c.entry ≠ d.entry) :
    Claimable env d w' (clearEntry c.roundIndex.toNat c.ctx.signer account) b := by
  have hindex : lockedIndex account = d.roundIndex.toNat := lookup_key hd.found
  have hentry : lookup InvestorAlloc.investor d.ctx.signer
      (clearEntry c.roundIndex.toNat c.ctx.signer account).data.investors = some b := by
    rw [clearEntry_entry (by rw [hindex]; exact hne)]
    exact hd.entry
  have hmem : clearEntry c.roundIndex.toNat c.ctx.signer account ∈ w'.roundLockedWaln := by
    rw [hc.accounts]
    refine List.mem_filter.mpr ⟨List.mem_map_of_mem (lookup_mem hd.found), ?_⟩
    exact decide_eq_true (unclaimed_pos hentry hd.positive)
  have hkeep : (clearEntry c.roundIndex.toNat c.ctx.signer account).data.bump = account.data.bump ∧
      (clearEntry c.roundIndex.toNat c.ctx.signer account).data.unlock = account.data.unlock := by
    rw [clearEntry]
    split_ifs <;> exact ⟨rfl, rfl⟩
  exact
    { found := (lookup_eq_some_iff h'.waln.indices).mpr
        ⟨hmem, by rw [lockedIndex_clearEntry, hindex]⟩
      bump := hkeep.1.trans hd.bump
      live := by rw [hc.state]; exact hd.live
      mint := by rw [hc.state]; exact hd.mint
      unlock := hkeep.2 ▸ hd.unlock
      entry := hentry
      positive := hd.positive
      hooks := hd.hooks
      accepts := hd.accepts }

/-- The worlds claims are made in: reachable, and with fewer than `2 ^ 64` lamports. -/
def ClaimWorld (env : Env) (w : World) : Prop :=
  Reachable env w ∧ w.treasury + lockedLamports w.roundLockedWaln < 2 ^ 64

/-- **Claims of different entries are independent.** -/
theorem claims_diamond (env : Env) :
    Diamond (ClaimWorld env) (fun c d => c.entry ≠ d.entry) (ClaimCall.run env) where
  keep := by
    rintro c w w' r ⟨hw, hlamports⟩ hx
    obtain ⟨account, a, -, hdone, -⟩ := ClaimCall.run_ok (reachable_inv hw).1 hx
    exact ⟨hw.step (a := ⟨c.ctx, .ClaimWaln c.walnMint c.roundIndex, r⟩) hx,
      hdone.lamports ▸ hlamports⟩
  swap := by
    rintro c d w w' u r s ⟨hw, hlamports⟩ hne hx hy
    obtain ⟨hinv, -⟩ := reachable_inv hw
    have hw' : Reachable env w' :=
      hw.step (a := ⟨c.ctx, .ClaimWaln c.walnMint c.roundIndex, r⟩) hx
    have hu : Reachable env u :=
      hw.step (a := ⟨d.ctx, .ClaimWaln d.walnMint d.roundIndex, s⟩) hy
    obtain ⟨hinv', -⟩ := reachable_inv hw'
    obtain ⟨hinvu, -⟩ := reachable_inv hu
    obtain ⟨account, a, hc, hcdone, rfl⟩ := ClaimCall.run_ok hinv hx
    obtain ⟨account', b, hd, hddone, rfl⟩ := ClaimCall.run_ok hinv hy
    have hd' := hd.after hinv' hcdone hne
    have hc' := hc.after hinvu hddone (Ne.symm hne)
    obtain ⟨v, hv⟩ := hd'.run_total hinv' (hcdone.lamports ▸ hlamports)
    obtain ⟨v', hv'⟩ := hc'.run_total hinvu (hddone.lamports ▸ hlamports)
    refine ⟨v, hv, ?_⟩
    have hsame : v = v' := by
      obtain ⟨_, b', -, hdone, hb⟩ := ClaimCall.run_ok hinv' hv
      obtain ⟨_, a', -, hdone', ha⟩ := ClaimCall.run_ok hinvu hv'
      have hbb : b.walnAmount = b'.walnAmount := congrArg Receipt.walnOut hb
      have haa : a.walnAmount = a'.walnAmount := congrArg Receipt.walnOut ha
      exact hcdone.comm (hbb ▸ hdone) hddone (haa ▸ hdone')
    rw [hsame]
    exact hv'

/-- **Claims in any order.**  Claims of different entries that succeed one by one succeed one after
the other in every order.  Each pays what it pays on its own, and every order ends in the same
world. -/
theorem claims_any_order {cs : List ClaimCall} {out : ClaimCall → Receipt} (hw : Reachable env w)
    (hlamports : w.treasury + lockedLamports w.roundLockedWaln < 2 ^ 64)
    (hentries : (cs.map ClaimCall.entry).Nodup)
    (hok : ∀ c ∈ cs, ∃ w', c.run env w = .ok (w', out c)) :
    ∃ w', ∀ cs', cs.Perm cs' → runAll (ClaimCall.run env) cs' w = .ok (w', cs'.map out) :=
  (claims_diamond env).any_order (fun _ _ hne => Ne.symm hne) ⟨hw, hlamports⟩
    (List.pairwise_map.mp hentries) hok

/-- The claim of investor `k` from round `i` at time `200`. -/
def lateClaim (k : Pubkey) (i : UInt64) : ClaimCall := ⟨signedBy k 200 [], 11, i⟩

/-- The claims of a full round of three. -/
def threeClaims : List ClaimCall := [lateClaim 21 0, lateClaim 22 0, lateClaim 23 0]

/-- What they pay; the gap of the locks is with investor `21`. -/
def threePayments (c : ClaimCall) : Receipt :=
  { walnOut := if c.ctx.signer = 21 then 666666668 else 666666666 }

/-- Whether the claim pays that. -/
def paysOut (w : World) (c : ClaimCall) : Bool :=
  isOkAnd (fun p : World × Receipt => decide (p.2 = threePayments c)) (c.run (sampleEnv 9) w)

theorem claims_any_order_full_round :
    ∃ w, Reachable (sampleEnv 9) w ∧ ∃ w', ∀ cs', threeClaims.Perm cs' →
      runAll (ClaimCall.run (sampleEnv 9)) cs' w = .ok (w', cs'.map threePayments) := by
  obtain ⟨w₀, h, w, hw₀, hh, hcheck⟩ := exists_sample_history 9 1000000000 2000000000
    (threeInvestors 100000 5000000000 ++ [sell 0 2000000000])
    (fun _ _ w => decide (w.treasury + lockedLamports w.roundLockedWaln < 2 ^ 64) &&
      threeClaims.all (paysOut w)) (by decide +kernel)
  obtain ⟨hlamports, hclaims⟩ := Bool.and_eq_true_iff.mp hcheck
  have hw := History.reachable hh hw₀
  refine ⟨w, hw, claims_any_order hw (of_decide_eq_true hlamports) (by decide) fun c hc => ?_⟩
  obtain ⟨⟨w', r⟩, hrun, hr⟩ := isOkAnd_eq_true.mp (List.all_eq_true.mp hclaims c hc)
  obtain rfl := of_decide_eq_true hr
  exact ⟨w', hrun⟩

/-! ## Everybody claims -/

/-- The entries with something left to claim, by round and investor. -/
def openEntries (l : List (Account RoundLockedWaln)) : List (ℕ × Pubkey) :=
  l.flatMap fun a => (a.data.investors.filter fun e => 0 < e.walnAmount).map
    fun e => (lockedIndex a, e.investor)

/-- What round `p.1` owes investor `p.2`. -/
def amountOwed (l : List (Account RoundLockedWaln)) (p : ℕ × Pubkey) : ℕ :=
  ((lookup lockedIndex p.1 l).map fun a => amountOf a.data.investors p.2).getD 0

lemma mem_openEntries {p : ℕ × Pubkey} :
    p ∈ openEntries l ↔ ∃ a ∈ l, ∃ e ∈ a.data.investors, 0 < e.walnAmount ∧
      (lockedIndex a, e.investor) = p := by
  simp only [openEntries, List.mem_flatMap, List.mem_map, List.mem_filter, decide_eq_true_eq,
    and_assoc]

lemma mem_of_mem_clear {entries : List InvestorAlloc} {e : InvestorAlloc}
    (he : e ∈ modifyFirst InvestorAlloc.investor k clearedAlloc entries) (hpos : 0 < e.walnAmount) :
    e ∈ entries := by
  cases h : lookup InvestorAlloc.investor k entries with
  | none => rwa [modifyFirst_of_none h] at he
  | some a =>
      rcases mem_modifyFirst h he with he | rfl
      · exact he
      · cases hpos

/-- What is open after a claim was open before, and is not the entry claimed. -/
lemma ClaimDone.openEntries {x : ℕ} {p : ℕ × Pubkey} (h' : Inv env w') (hc : ClaimDone c x w w')
    (hp : p ∈ openEntries w'.roundLockedWaln) :
    p ∈ Floor.openEntries w.roundLockedWaln ∧ p ≠ c.entry := by
  obtain ⟨a', ha', e, he, hpos, rfl⟩ := mem_openEntries.mp hp
  have hsorted := (h'.waln.accounts a' ha').sorted.nodupKeys
  rw [hc.accounts] at ha'
  obtain ⟨a, ha, rfl⟩ := List.mem_map.mp (List.mem_filter.mp ha').1
  rw [lockedIndex_clearEntry]
  by_cases hi : lockedIndex a = c.roundIndex.toNat
  · rw [clearEntry, if_pos hi] at he hsorted
    refine ⟨mem_openEntries.mpr ⟨a, ha, e, mem_of_mem_clear he hpos, hpos, rfl⟩, fun heq => ?_⟩
    have hk : e.investor = c.ctx.signer := congrArg Prod.snd heq
    have hlookup := lookup_modifyFirst (k := c.ctx.signer) (l := a.data.investors)
      clearedAlloc_investor c.ctx.signer
    have hthere := (lookup_eq_some_iff hsorted).mpr ⟨he, hk⟩
    rw [if_pos rfl] at hlookup
    obtain ⟨b, -, rfl⟩ := Option.map_eq_some_iff.mp (hlookup.symm.trans hthere)
    cases hpos
  · rw [clearEntry_of_ne hi] at he
    exact ⟨mem_openEntries.mpr ⟨a, ha, e, he, hpos, rfl⟩, fun heq => hi (congrArg Prod.fst heq)⟩

/-- A call made when every round has unlocked, with accounts the token program accepts. -/
structure ClaimCall.Ready (env : Env) (w : World) (c : ClaimCall) : Prop where
  mint : c.walnMint = w.state.walnMint
  unlock : ∀ a ∈ w.roundLockedWaln, a.data.unlock ≤ c.ctx.now
  hooks : claimHookAccounts env c.ctx c.walnMint = .ok ()
  accepts : c.ctx.cpiAccepts = true

/-- A ready call for an open entry succeeds. -/
lemma ClaimCall.Ready.run_total (hw : Reachable env w)
    (hlamports : w.treasury + lockedLamports w.roundLockedWaln < 2 ^ 64)
    (hlive : w.state.frozen = false) (hready : c.Ready env w)
    (hopen : c.entry ∈ openEntries w.roundLockedWaln) :
    ∃ w', c.run env w = .ok (w', { walnOut := amountOwed w.roundLockedWaln c.entry }) := by
  obtain ⟨hinv, -⟩ := reachable_inv hw
  obtain ⟨account, haccount, a, ha, hpos, hentry⟩ := mem_openEntries.mp hopen
  have hindex : lockedIndex account = c.roundIndex.toNat := congrArg Prod.fst hentry
  have hkey : a.investor = c.ctx.signer := congrArg Prod.snd hentry
  have hfound : lookup lockedIndex c.roundIndex.toNat w.roundLockedWaln = some account :=
    (lookup_eq_some_iff hinv.waln.indices).mpr ⟨haccount, hindex⟩
  have hlookup : lookup InvestorAlloc.investor c.ctx.signer account.data.investors = some a :=
    (lookup_eq_some_iff (hinv.waln.accounts account haccount).sorted.nodupKeys).mpr ⟨ha, hkey⟩
  have hc : Claimable env c w account a :=
    ⟨hfound, hindex ▸ hw.bump account haccount, hlive, hready.mint, hready.unlock account haccount,
      hlookup, hpos, hready.hooks, hready.accepts⟩
  obtain ⟨w', hrun⟩ := hc.run_total hinv hlamports
  refine ⟨w', ?_⟩
  rw [hrun, amountOwed, ClaimCall.entry, hfound, Option.map_some, Option.getD_some, amountOf,
    valueOf, hlookup]
  rfl

lemma nodup_openEntries (h : Inv env w) : (openEntries w.roundLockedWaln).Nodup := by
  rw [openEntries, List.nodup_flatMap]
  refine ⟨fun a ha => ?_, (List.pairwise_map.mp h.waln.indices).imp fun {a b} hab => ?_⟩
  · have hkeys : ((a.data.investors.filter fun e => 0 < e.walnAmount).map
        InvestorAlloc.investor).Nodup :=
      (h.waln.accounts a ha).sorted.nodupKeys.sublist (List.filter_sublist.map _)
    have hpairs := hkeys.map (Prod.mk_right_injective (lockedIndex a))
    rwa [List.map_map] at hpairs
  · intro p hp hp'
    obtain ⟨_, -, rfl⟩ := List.mem_map.mp hp
    obtain ⟨_, -, heq⟩ := List.mem_map.mp hp'
    exact hab (congrArg Prod.fst heq).symm

/-- What is open after a list of claims was open before, and is none of the entries claimed. -/
lemma openEntries_of_runAll {cs : List ClaimCall} {rs : List Receipt} {p : ℕ × Pubkey}
    (hw : ClaimWorld env w) (hrun : runAll (ClaimCall.run env) cs w = .ok (w', rs))
    (hp : p ∈ openEntries w'.roundLockedWaln) :
    p ∈ openEntries w.roundLockedWaln ∧ p ∉ cs.map ClaimCall.entry := by
  induction cs generalizing w rs with
  | nil =>
      obtain ⟨rfl, -⟩ := Prod.mk.inj (Except.ok.inj hrun)
      exact ⟨hp, by simp⟩
  | cons c cs ih =>
      obtain ⟨u, r, rest, hc, hcs, -⟩ := runAll_cons_eq_ok hrun
      have hu := (claims_diamond env).keep hw hc
      obtain ⟨_, _, -, hdone, -⟩ := ClaimCall.run_ok (reachable_inv hw.1).1 hc
      obtain ⟨hopen, hrest⟩ := ih hu hcs
      obtain ⟨hbefore, hne⟩ := hdone.openEntries (reachable_inv hu.1).1 hopen
      exact ⟨hbefore, by simpa [hne] using hrest⟩

/-- **Everybody claims.**  If every open entry of a contract that is not frozen is claimed once, in
any order, every claim succeeds and pays what is owed.  Then the accounts of settled rounds are
gone, their lamports are in the treasury, and the wALN that is left is that of the running round and
the carryover. -/
theorem claims_drain {cs : List ClaimCall} (hw : Reachable env w)
    (hlamports : w.treasury + lockedLamports w.roundLockedWaln < 2 ^ 64)
    (hlive : w.state.frozen = false) (hready : ∀ c ∈ cs, c.Ready env w)
    (hentries : (cs.map ClaimCall.entry).Perm (openEntries w.roundLockedWaln)) :
    ∃ w', runAll (ClaimCall.run env) cs w = .ok (w', cs.map fun c =>
        { walnOut := amountOwed w.roundLockedWaln c.entry }) ∧
      w'.roundLockedWaln = [] ∧
      w'.walnVault = w.state.currentRoundWaln + w.state.walnDustCarryover ∧
      w'.treasury = w.treasury + lockedLamports w.roundLockedWaln ∧
      w'.state = w.state ∧ w'.pool = w.pool ∧ w'.usdcVault = w.usdcVault := by
  obtain ⟨hinv, -⟩ := reachable_inv hw
  have hnodup := hentries.nodup_iff.mpr (nodup_openEntries hinv)
  obtain ⟨w', hrun⟩ := (claims_diamond env).runAll_ok (s := w)
    ⟨hw, hlamports⟩ (List.pairwise_map.mp hnodup) fun c hc =>
      (hready c hc).run_total hw hlamports hlive (hentries.mem_iff.mp (List.mem_map_of_mem hc))
  have hstep : ∀ c ∈ cs, ∀ u v r, (ClaimWorld env u ∧ u.state = w.state ∧ u.pool = w.pool ∧
      u.usdcVault = w.usdcVault ∧ u.treasury + lockedLamports u.roundLockedWaln
        = w.treasury + lockedLamports w.roundLockedWaln) → c.run env u = .ok (v, r) →
      (ClaimWorld env v ∧ v.state = w.state ∧ v.pool = w.pool ∧
        v.usdcVault = w.usdcVault ∧ v.treasury + lockedLamports v.roundLockedWaln
          = w.treasury + lockedLamports w.roundLockedWaln) := by
    rintro c - u v r ⟨hu, hstate, hpool, husdc, hkept⟩ hc
    obtain ⟨_, _, -, hdone, -⟩ := ClaimCall.run_ok (reachable_inv hu.1).1 hc
    exact ⟨(claims_diamond env).keep hu hc, hdone.state.trans hstate, hdone.pool.trans hpool,
      hdone.usdcVault.trans husdc, hdone.lamports.trans hkept⟩
  obtain ⟨⟨hw', -⟩, hstate, hpool, husdc, hkept⟩ :=
    runAll_invariant hstep hrun ⟨⟨hw, hlamports⟩, rfl, rfl, rfl, rfl⟩
  obtain ⟨hinv', -⟩ := reachable_inv hw'
  have hgone : w'.roundLockedWaln = [] := by
    refine List.eq_nil_iff_forall_not_mem.mpr fun a ha => ?_
    have hlocked := hinv'.waln.accounts a ha
    have hpos := hlocked.remaining ▸ hlocked.remaining_pos
    obtain ⟨e, he⟩ := List.exists_mem_of_length_pos hpos
    obtain ⟨hmem, hamount⟩ := List.mem_filter.mp he
    have hopen := mem_openEntries.mpr ⟨a, ha, e, hmem, of_decide_eq_true hamount, rfl⟩
    obtain ⟨hbefore, hnot⟩ := openEntries_of_runAll ⟨hw, hlamports⟩ hrun hopen
    exact hnot (hentries.mem_iff.mpr hbefore)
  have hvault := hinv'.waln.vault
  rw [hgone] at hvault hkept
  refine ⟨w', hrun, hgone, ?_, hkept, hstate, hpool, husdc⟩
  rw [hvault, hstate]
  exact congrArg (· + _) (Nat.zero_add _)

/-- Two rounds, of which one investor has already claimed the first. -/
def twoRounds : List (Context × Instruction) :=
  threeInvestors 100000 5000000000 ++ [sell 0 2000000000, sell 1 2000000000,
    (signedBy 22 150 [], .ClaimWaln 11 0)]

/-- The claims that are left, in no particular order. -/
def fiveClaims : List ClaimCall :=
  [lateClaim 23 1, lateClaim 21 0, lateClaim 22 1, lateClaim 23 0, lateClaim 21 1]

theorem claims_drain_two_rounds :
    ∃ w, Reachable (sampleEnv 9) w ∧ w.walnVault = 3333333334 ∧ ∃ w',
      runAll (ClaimCall.run (sampleEnv 9)) fiveClaims w = .ok (w', fiveClaims.map fun c =>
        { walnOut := amountOwed w.roundLockedWaln c.entry }) ∧
      w'.roundLockedWaln = [] ∧
      w'.walnVault = w.state.currentRoundWaln + w.state.walnDustCarryover ∧
      w'.treasury = w.treasury + lockedLamports w.roundLockedWaln ∧
      w'.state = w.state ∧ w'.pool = w.pool ∧ w'.usdcVault = w.usdcVault := by
  obtain ⟨w₀, h, w, hw₀, hh, hcheck⟩ := exists_sample_history 9 1000000000 2000000000 twoRounds
    (fun _ _ w => decide (w.walnVault = 3333333334 ∧
      w.treasury + lockedLamports w.roundLockedWaln < 2 ^ 64 ∧ w.state.frozen = false ∧
      (11 : Pubkey) = w.state.walnMint ∧ (∀ a ∈ w.roundLockedWaln, a.data.unlock ≤ 200) ∧
      (fiveClaims.map ClaimCall.entry).Perm (openEntries w.roundLockedWaln)))
    (by decide +kernel)
  obtain ⟨hvault, hlamports, hlive, hmint, hunlock, hentries⟩ := of_decide_eq_true hcheck
  have hw := History.reachable hh hw₀
  refine ⟨w, hw, hvault, claims_drain hw hlamports hlive (fun c hc => ?_) hentries⟩
  have hcall : c.walnMint = 11 ∧ c.ctx.now = 200 ∧ c.ctx.cpiAccepts = true := by
    simp only [fiveClaims, List.mem_cons, List.not_mem_nil, or_false] at hc
    rcases hc with rfl | rfl | rfl | rfl | rfl <;> exact ⟨rfl, rfl, rfl⟩
  exact ⟨hcall.1.trans hmint, fun a ha => hcall.2.1 ▸ hunlock a ha, rfl, hcall.2.2⟩

end Floor
