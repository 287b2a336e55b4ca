import FloorProgram.Core.Interleaving
import FloorProgram.Rounds.ClaimOrder

/-!
# Deposits, withdrawals and claims of many investors

The calls an investor signs for itself depend on what the contract keeps about that investor, and
change only that.  So it does not matter to an investor how its calls are interleaved with those of
the others.

* `PartyView` — what the contract keeps about one investor: its slot, its NFT, what settled rounds
  owe it.  `PartyCall.act` is what a call does to it.
* `parties_local` — the program acts on the view of the signer.
* `PartyCall.Done` — what a call does to everything that belongs to nobody in particular.
* `parties_interleave` — two interleavings that both succeed end in the same world, up to the order
  of the pool slots.
-/

namespace Floor

open Checked Keyed Search

variable {env : Env} {w w' t u : World} {ctx : Context} {k : Pubkey} {r : Receipt}

/-- The instructions an investor signs for itself. -/
def Instruction.isParty : Instruction → Bool
  | .DepositUsdc _ _ _ | .WithdrawUsdc _ _ | .ClaimWaln _ _ => true
  | _ => false

/-- A deposit, a withdrawal or a claim. -/
structure PartyCall where
  ctx : Context
  instr : Instruction
  isParty : instr.isParty = true

/-- Who makes the call. -/
def PartyCall.owner (c : PartyCall) : Pubkey := c.ctx.signer

/-- Execute the call. -/
def PartyCall.run (env : Env) (c : PartyCall) (w : World) : Except TxError (World × Receipt) :=
  exec env c.ctx c.instr w

/-- What the contract keeps about one investor, and the setting its deposits depend on. -/
structure PartyView where
  withdrawLockSeconds : ℤ
  nft : Option AatNft
  record : Option InvestorRecord
  owed : ℕ → ℕ

/-- What `w` keeps about `k`. -/
def World.viewOf (k : Pubkey) (w : World) : PartyView where
  withdrawLockSeconds := w.state.usdcWithdrawLockSeconds
  nft := lookup nftHolder k w.aatNfts
  record := lookup byInvestor k w.pool.investors
  owed := fun i => amountOwed w.roundLockedWaln (i, k)

/-- What a call makes of the view of its owner, and what it moves. -/
def PartyCall.act (c : PartyCall) (v : PartyView) : Option (PartyView × Receipt) :=
  match c.instr with
  | .DepositUsdc _ _ a => do
    let nft ← v.nft
    let r := v.record.getD (InvestorRecord.empty c.ctx.signer)
    match extendUnlock c.ctx.now v.withdrawLockSeconds r.usdcUnlockTs with
    | .ok ts =>
      some ({ v with record := some (creditedRecord nft.aatVolume a.toNat ts r) },
        { usdcIn := a.toNat })
    | .error _ => none
  | .WithdrawUsdc _ a => do
    let r ← v.record
    let amount := if a.toNat = U64_MAX then r.usdcDeposited else a.toNat
    some ({ v with record := some (debitedRecord amount r) }, { usdcOut := amount })
  | .ClaimWaln _ i =>
    some ({ v with owed := Function.update v.owed i.toNat 0 }, { walnOut := v.owed i.toNat })
  | _ => none

/-! ## What a call does to what settled rounds owe -/

/-- `amountOwed` is what is owed. -/
lemma Inv.amountOwed_eq (h : Inv env w) (p : ℕ × Pubkey) :
    amountOwed w.roundLockedWaln p = owedWaln w.roundLockedWaln p :=
  (owedWaln_apply h.waln.indices h.waln.accounts p.1 p.2).symm

/-- A claim pays what is owed to its signer, and leaves what is owed to anybody else. -/
lemma amountOwed_claimed {m : Pubkey} {i : UInt64} (h : Inv env w) (h' : Inv env w')
    (hx : exec env ctx (.ClaimWaln m i) w = .ok (w', r)) :
    r = { walnOut := amountOwed w.roundLockedWaln (i.toNat, ctx.signer) } ∧
      ∀ p, amountOwed w'.roundLockedWaln p
        = if p = (i.toNat, ctx.signer) then 0 else amountOwed w.roundLockedWaln p := by
  obtain ⟨account, a, hc⟩ := (claimWaln_effect hx).claimed h
  have hsigner := owed_signer h hc
  refine ⟨by rw [h.amountOwed_eq, hsigner]; exact hc.receipt, fun p => ?_⟩
  have hclaimed := DFunLike.congr_fun (owed_claimed h hc) p
  rw [h.amountOwed_eq, h'.amountOwed_eq]
  rw [Finsupp.add_apply] at hclaimed
  split_ifs with hp
  · rw [hp, Finsupp.single_eq_same, hsigner] at hclaimed
    rw [hp]
    omega
  · rw [Finsupp.single_eq_of_ne hp] at hclaimed
    exact hclaimed

/-! ## Locality -/

/-- The pool after a withdrawal, from the code. -/
lemma withdrawUsdc_ok {m : Pubkey} {a : UInt64} (hx : withdrawUsdc ctx m a.toNat w = .ok (w', r)) :
    ∃ x amount, lookup byInvestor ctx.signer w.pool.investors = some x ∧
      amount = (if a.toNat = U64_MAX then x.usdcDeposited else a.toNat) ∧
      amount ≤ x.usdcDeposited ∧ amount ≤ w.usdcVault ∧ amount ≤ w.state.totalUsdcInLobby ∧
      w' = { w with
        state := { w.state with totalUsdcInLobby := w.state.totalUsdcInLobby - amount }
        pool := w.updateInvestor ctx.signer (debitedRecord amount)
        usdcVault := w.usdcVault - amount } ∧ r = { usdcOut := amount } := by
  simp only [withdrawUsdc, bind_eq_ok, ensure_eq_ok, okOr_eq_ok, arith_eq_ok, checkedSub_eq_some,
    transferOut_eq_ok, pure_eq_ok, Prod.mk.injEq] at hx
  obtain ⟨_, -, _, -, x, hr, _, -, _, -, _, hle, _, ⟨-, rfl⟩, _, ⟨-, hvault, rfl⟩, _,
    ⟨hlobby, rfl⟩, rfl, rfl⟩ := hx
  refine ⟨x, _, hr, rfl, hle, hvault, hlobby, ?_, rfl⟩
  rw [World.updateInvestor, modifyFirst_congr hr (g := debitedRecord _)]
  rfl

lemma act_deposit {c : PartyCall} {m : Pubkey} {n : AccountKey} {a : UInt64} {v : PartyView}
    {nft : AatNft} {ts : ℤ} {x : InvestorRecord} (hi : c.instr = .DepositUsdc m n a)
    (hnft : v.nft = some nft) (hx : v.record.getD (InvestorRecord.empty c.ctx.signer) = x)
    (hts : extendUnlock c.ctx.now v.withdrawLockSeconds x.usdcUnlockTs = .ok ts) :
    c.act v = some ({ v with record := some (creditedRecord nft.aatVolume a.toNat ts x) },
      { usdcIn := a.toNat }) := by
  simp only [PartyCall.act, hi, hnft, hx, hts, Option.bind_eq_bind, Option.bind_some]

/-- Looking up a slot after one slot has been updated. -/
lemma lookup_updateInvestor {f : InvestorRecord → InvestorRecord} {j : Pubkey}
    (hf : ∀ x, byInvestor (f x) = byInvestor x) :
    lookup byInvestor k (w.updateInvestor j f).investors
      = if k = j then (lookup byInvestor k w.pool.investors).map f
        else lookup byInvestor k w.pool.investors := lookup_modifyFirst hf k

/-- Looking up a slot after `j` has joined. -/
lemma lookup_joined {l : List InvestorRecord} {j : Pubkey} {v a : ℕ} {ts : ℤ}
    (hnew : lookup byInvestor j l = none) :
    lookup byInvestor k (l ++ [creditedRecord v a ts (InvestorRecord.empty j)])
      = if k = j then some (creditedRecord v a ts (InvestorRecord.empty j))
        else lookup byInvestor k l := by
  split_ifs with hk
  · subst hk
    exact lookup_append_self rfl hnew
  · exact lookup_append_of_ne (Ne.symm hk)

/-- **The program acts on the view of the signer.** -/
theorem parties_local (env : Env) :
    Local (Reachable env) (PartyCall.run env) PartyCall.owner World.viewOf PartyCall.act where
  keep := by
    rintro c w w' r hw hx
    exact hw.step (a := ⟨c.ctx, c.instr, r⟩) hx
  mine := by
    rintro ⟨ctx, i, hi⟩ w w' r hw hx
    have hw' : Reachable env w' := hw.step (a := ⟨ctx, i, r⟩) hx
    have hx : exec env ctx i w = .ok (w', r) := hx
    obtain ⟨hinv, hround⟩ := reachable_inv hw
    have heffect := exec_effect hinv hround hx
    show PartyCall.act _ (w.viewOf ctx.signer) = some (w'.viewOf ctx.signer, r)
    cases i with
    | DepositUsdc m n a =>
        cases heffect with
        | Configure hi => cases hi
        | ManageRent hi => cases hi
        | Deposit hnft hr hts hlobby =>
            rw [act_deposit rfl hnft (by rw [World.viewOf, hr]; rfl) hts]
            simp only [World.viewOf]
            rw [lookup_updateInvestor (f := creditedRecord _ _ _) fun _ => rfl, if_pos rfl, hr]
            rfl
        | Join hnft hnew hcount hts hlobby =>
            rw [act_deposit rfl hnft (by simp only [World.viewOf, hnew]; rfl) hts]
            simp only [World.viewOf]
            rw [lookup_joined hnew, if_pos rfl]
            rfl
    | WithdrawUsdc m a =>
        obtain ⟨x, amount, hr, hamount, -, -, -, rfl, rfl⟩ := withdrawUsdc_ok hx
        have hlookup := lookup_updateInvestor (w := w) (k := ctx.signer) (j := ctx.signer)
          (f := debitedRecord amount) fun _ => rfl
        rw [if_pos rfl, hr] at hlookup
        simp only [PartyCall.act, World.viewOf, hr, hlookup, ← hamount,
          Option.bind_eq_bind, Option.bind_some, Option.map_some]
    | ClaimWaln m j =>
        obtain ⟨hinv', -⟩ := reachable_inv hw'
        obtain ⟨_, _, -, hdone, -⟩ := ClaimCall.run_ok (c := ⟨ctx, m, j⟩) hinv hx
        obtain ⟨rfl, howed⟩ := amountOwed_claimed hinv hinv' hx
        have hupdate : (fun i => amountOwed w'.roundLockedWaln (i, ctx.signer))
            = Function.update (fun i => amountOwed w.roundLockedWaln (i, ctx.signer)) j.toNat
              0 := by
          funext i
          rw [howed, Function.update_apply]
          simp only [Prod.mk.injEq, and_true]
        simp only [PartyCall.act, World.viewOf, hdone.state, hdone.pool, hdone.aatNfts, hupdate]
    | _ => cases hi
  others := by
    rintro ⟨ctx, i, hi⟩ w w' r k hw hx hk
    have hw' : Reachable env w' := hw.step (a := ⟨ctx, i, r⟩) hx
    have hx : exec env ctx i w = .ok (w', r) := hx
    obtain ⟨hinv, hround⟩ := reachable_inv hw
    have heffect := exec_effect hinv hround hx
    change k ≠ ctx.signer at hk
    cases i with
    | DepositUsdc m n a =>
        cases heffect with
        | Configure hi => cases hi
        | ManageRent hi => cases hi
        | Deposit hnft hr hts hlobby =>
            simp only [World.viewOf]
            rw [lookup_updateInvestor (f := creditedRecord _ _ _) fun _ => rfl, if_neg hk]
        | Join hnft hnew hcount hts hlobby =>
            simp only [World.viewOf]
            rw [lookup_joined hnew, if_neg hk]
    | WithdrawUsdc m a =>
        obtain ⟨x, amount, -, -, -, -, -, rfl, -⟩ := withdrawUsdc_ok hx
        have hlookup := lookup_updateInvestor (w := w) (k := k) (j := ctx.signer)
          (f := debitedRecord amount) fun _ => rfl
        rw [if_neg hk] at hlookup
        simp only [World.viewOf, hlookup]
    | ClaimWaln m j =>
        obtain ⟨hinv', -⟩ := reachable_inv hw'
        obtain ⟨_, _, -, hdone, -⟩ := ClaimCall.run_ok (c := ⟨ctx, m, j⟩) hinv hx
        obtain ⟨-, howed⟩ := amountOwed_claimed hinv hinv' hx
        have hsame : (fun i => amountOwed w'.roundLockedWaln (i, k))
            = fun i => amountOwed w.roundLockedWaln (i, k) := by
          funext i
          rw [howed, if_neg fun h => hk (congrArg Prod.snd h)]
        simp only [World.viewOf, hdone.state, hdone.pool, hdone.aatNfts, hsame]
    | _ => cases hi

/-! ## What belongs to nobody in particular -/

/-- The accounts of settled rounds after the call. -/
def PartyCall.accountsAfter (c : PartyCall) (l : List (Account RoundLockedWaln)) :
    List (Account RoundLockedWaln) :=
  match c.instr with
  | .ClaimWaln _ i => claimAccounts i.toNat c.owner l
  | _ => l

/-- What the calls `cs` with results `rs` do to the rest of the world. -/
structure PartiesDone (cs : List PartyCall) (rs : List Receipt) (w w' : World) : Prop where
  state : w'.state = { w.state with totalUsdcInLobby := w'.state.totalUsdcInLobby }
  lobby : w'.state.totalUsdcInLobby + (rs.map Receipt.usdcOut).sum
    = w.state.totalUsdcInLobby + (rs.map Receipt.usdcIn).sum
  usdcVault : w'.usdcVault + (rs.map Receipt.usdcOut).sum
    = w.usdcVault + (rs.map Receipt.usdcIn).sum
  walnVault : w'.walnVault + (rs.map Receipt.walnOut).sum = w.walnVault
  accounts : w'.roundLockedWaln = cs.foldl (fun l c => c.accountsAfter l) w.roundLockedWaln
  lamports : w'.treasury + lockedLamports w'.roundLockedWaln
    = w.treasury + lockedLamports w.roundLockedWaln
  roundRecords : w'.roundRecords = w.roundRecords
  aatNfts : w'.aatNfts = w.aatNfts

lemma PartyCall.done {c : PartyCall} (hw : Reachable env w) (hx : c.run env w = .ok (w', r)) :
    PartiesDone [c] [r] w w' := by
  obtain ⟨ctx, i, hi⟩ := c
  have hx : exec env ctx i w = .ok (w', r) := hx
  obtain ⟨hinv, hround⟩ := reachable_inv hw
  cases i with
  | DepositUsdc m n a =>
      cases exec_effect hinv hround hx with
      | Configure hi => cases hi
      | ManageRent hi => cases hi
      | Deposit | Join => exact ⟨rfl, rfl, rfl, rfl, rfl, rfl, rfl, rfl⟩
  | WithdrawUsdc m a =>
      obtain ⟨x, amount, -, -, -, hvault, hlobby, rfl, rfl⟩ := withdrawUsdc_ok hx
      exact ⟨rfl, Nat.sub_add_cancel hlobby, Nat.sub_add_cancel hvault, rfl, rfl, rfl, rfl, rfl⟩
  | ClaimWaln m j =>
      obtain ⟨_, _, -, hdone, rfl⟩ := ClaimCall.run_ok (c := ⟨ctx, m, j⟩) hinv hx
      have hlobby := congrArg ProgramState.totalUsdcInLobby hdone.state
      exact ⟨hlobby ▸ hdone.state, hlobby, hdone.usdcVault, hdone.walnVault,
        hdone.accounts, hdone.lamports, hdone.roundRecords, hdone.aatNfts⟩
  | _ => cases hi

lemma PartiesDone.append {cs cs' : List PartyCall} {rs rs' : List Receipt}
    (h : PartiesDone cs rs w t) (h' : PartiesDone cs' rs' t u) :
    PartiesDone (cs ++ cs') (rs ++ rs') w u where
  state := by rw [h'.state, h.state]
  lobby := by
    have := h.lobby
    have := h'.lobby
    simp only [List.map_append, List.sum_append]
    omega
  usdcVault := by
    have := h.usdcVault
    have := h'.usdcVault
    simp only [List.map_append, List.sum_append]
    omega
  walnVault := by
    have := h.walnVault
    have := h'.walnVault
    simp only [List.map_append, List.sum_append]
    omega
  accounts := by rw [h'.accounts, h.accounts, List.foldl_append]
  lamports := h'.lamports.trans h.lamports
  roundRecords := h'.roundRecords.trans h.roundRecords
  aatNfts := h'.aatNfts.trans h.aatNfts

lemma partiesDone_of_runAll {cs : List PartyCall} {rs : List Receipt} (hw : Reachable env w)
    (h : runAll (PartyCall.run env) cs w = .ok (t, rs)) : PartiesDone cs rs w t := by
  induction cs generalizing w rs with
  | nil =>
      obtain ⟨rfl, rfl⟩ := Prod.mk.inj (Except.ok.inj h)
      exact ⟨rfl, rfl, rfl, rfl, rfl, rfl, rfl, rfl⟩
  | cons c cs ih =>
      obtain ⟨v, r, rs, hx, hrest, rfl⟩ := runAll_cons_eq_ok h
      exact (c.done hw hx).append (ih ((parties_local env).keep hw hx) hrest)

/-- The order of two calls does not matter to the accounts. -/
lemma PartyCall.accountsAfter_comm (c d : PartyCall) (l : List (Account RoundLockedWaln)) :
    d.accountsAfter (c.accountsAfter l) = c.accountsAfter (d.accountsAfter l) := by
  unfold PartyCall.accountsAfter
  split <;> split <;> first | rfl | exact claimAccounts_comm l

/-- Pools in which every investor has the same slot differ only in the order of the slots. -/
lemma perm_of_lookup_eq {l l' : List InvestorRecord} (hl : NodupKeys byInvestor l)
    (hl' : NodupKeys byInvestor l') (h : ∀ k, lookup byInvestor k l = lookup byInvestor k l') :
    l.Perm l' := by
  refine (List.perm_ext_iff_of_nodup (List.Nodup.of_map _ hl) (List.Nodup.of_map _ hl')).mpr
    fun x => ?_
  have hmem : ∀ l, NodupKeys byInvestor l → (x ∈ l ↔ lookup byInvestor x.investor l = some x) :=
    fun l hl => by simp [lookup_eq_some_iff hl, byInvestor]
  rw [hmem l hl, hmem l' hl', h]

/-- **Interleavings.**  Two runs in which every investor makes the same deposits, withdrawals and
claims, in the same order and at the same times, are the same to every investor: each call moves the
same amounts.  They end in the same world, up to the order of the pool slots. -/
theorem parties_interleave {cs cs' : List PartyCall} {rs rs' : List Receipt}
    (hw : Reachable env w)
    (hsame : ∀ k, cs.filter (fun c => c.owner = k) = cs'.filter fun c => c.owner = k)
    (h : runAll (PartyCall.run env) cs w = .ok (t, rs))
    (h' : runAll (PartyCall.run env) cs' w = .ok (u, rs')) :
    (∀ k, callsOf PartyCall.owner k (cs.zip rs) = callsOf PartyCall.owner k (cs'.zip rs')) ∧
      t.pool.investors.Perm u.pool.investors ∧ u = { t with pool := u.pool } := by
  have hl := parties_local env
  have hperm := hl.perm hw hsame h h'
  have hkeep : ∀ {cs rs t}, runAll (PartyCall.run env) cs w = .ok (t, rs) → Reachable env t :=
    fun h => runAll_invariant (fun _ _ _ _ _ hs hx => hl.keep hs hx) h hw
  refine ⟨hl.callsOf_eq hw hsame h h', ?_, ?_⟩
  · refine perm_of_lookup_eq (reachable_inv (hkeep h)).1.keys (reachable_inv (hkeep h')).1.keys
      fun k => ?_
    exact congrArg PartyView.record (hl.interleaving hw hsame h h' k).1
  · have hd := partiesDone_of_runAll hw h
    have hd' := partiesDone_of_runAll hw h'
    have hcalls : cs.Perm cs' := by
      have := hperm.map Prod.fst
      rwa [List.map_fst_zip (runAll_length h).ge, List.map_fst_zip (runAll_length h').ge] at this
    have hresults : rs.Perm rs' := by
      have := hperm.map Prod.snd
      rwa [List.map_snd_zip (runAll_length h).le, List.map_snd_zip (runAll_length h').le] at this
    have haccounts : u.roundLockedWaln = t.roundLockedWaln := by
      rw [hd'.accounts, hd.accounts]
      exact (hcalls.foldl_eq' (fun c _ d _ l => PartyCall.accountsAfter_comm c d l) _).symm
    have hsum : ∀ g : Receipt → ℕ, (rs'.map g).sum = (rs.map g).sum := fun g =>
      (hresults.map g).sum_eq.symm
    have hstate : u.state = t.state := by
      have hlobby := hd.lobby
      have hlobby' := hd'.lobby
      rw [hsum, hsum] at hlobby'
      rw [hd'.state, hd.state, show u.state.totalUsdcInLobby = t.state.totalUsdcInLobby by omega]
    have husdc : u.usdcVault = t.usdcVault := by
      have hvault := hd.usdcVault
      have hvault' := hd'.usdcVault
      rw [hsum, hsum] at hvault'
      omega
    have hwaln : u.walnVault = t.walnVault := by
      have hvault := hd.walnVault
      have hvault' := hd'.walnVault
      rw [hsum] at hvault'
      omega
    have htreasury : u.treasury = t.treasury := by
      have hlamports := hd.lamports
      have hlamports' := hd'.lamports
      rw [haccounts] at hlamports'
      omega
    have hrecords := hd'.roundRecords.trans hd.roundRecords.symm
    have hnfts := hd'.aatNfts.trans hd.aatNfts.symm
    cases u
    cases t
    simp only [World.mk.injEq] at *
    exact ⟨hstate, trivial, husdc, hwaln, htreasury, hrecords, haccounts, hnfts⟩

/-- A full round of three, after which two more NFTs are minted. -/
def twoNewcomers : List (Context × Instruction) :=
  threeInvestors 100000 5000000000 ++ [sell 0 2000000000, (signedBy 1 1 [], .MintAatNft 24 500),
    (signedBy 1 1 [], .MintAatNft 25 600)]

/-- A deposit at time `200`. -/
def lateDeposit (k : Pubkey) (a : UInt64) : PartyCall :=
  ⟨signedBy k 200 [], .DepositUsdc 10 (.AatNft k) a, rfl⟩

/-- A withdrawal at time `300`. -/
def lateWithdrawal (k : Pubkey) (a : UInt64) : PartyCall :=
  ⟨signedBy k 300 [], .WithdrawUsdc 10 a, rfl⟩

/-- Deposits, a withdrawal and a claim, investor by investor. -/
def oneByOne : List PartyCall :=
  [lateDeposit 24 70, lateWithdrawal 24 30, lateDeposit 25 80,
    ⟨signedBy 21 200 [], .ClaimWaln 11 0, rfl⟩, lateDeposit 21 90]

/-- The same calls, in turns. -/
def inTurns : List PartyCall :=
  [lateDeposit 25 80, ⟨signedBy 21 200 [], .ClaimWaln 11 0, rfl⟩, lateDeposit 24 70,
    lateDeposit 21 90, lateWithdrawal 24 30]

lemma oneByOne_inTurns (k : Pubkey) :
    oneByOne.filter (fun c => c.owner = k) = inTurns.filter fun c => c.owner = k := by
  by_cases h₁ : (21 : Pubkey) = k
  · subst h₁; rfl
  by_cases h₂ : (24 : Pubkey) = k
  · subst h₂; rfl
  by_cases h₃ : (25 : Pubkey) = k
  · subst h₃; rfl
  have howner : ∀ c ∈ oneByOne ++ inTurns, c.owner ≠ k := by
    simp [oneByOne, inTurns, lateDeposit, lateWithdrawal, PartyCall.owner, signedBy, h₁, h₂, h₃]
  rw [List.filter_eq_nil_iff.mpr fun c hc => ?_, List.filter_eq_nil_iff.mpr fun c hc => ?_]
  · simpa using howner c (List.mem_append_right _ hc)
  · simpa using howner c (List.mem_append_left _ hc)

theorem parties_interleave_newcomers :
    ∃ w t u rs rs', Reachable (sampleEnv 9) w ∧
      runAll (PartyCall.run (sampleEnv 9)) oneByOne w = .ok (t, rs) ∧
      runAll (PartyCall.run (sampleEnv 9)) inTurns w = .ok (u, rs') ∧
      t.pool.investors ≠ u.pool.investors ∧
      (∀ k, callsOf PartyCall.owner k (oneByOne.zip rs)
        = callsOf PartyCall.owner k (inTurns.zip rs')) ∧
      t.pool.investors.Perm u.pool.investors ∧ u = { t with pool := u.pool } := by
  obtain ⟨w₀, h, w, hw₀, hh, hcheck⟩ := exists_sample_history 9 1000000000 2000000000 twoNewcomers
    (fun _ _ w => isOkAnd (fun p : World × List Receipt =>
      isOkAnd (fun q : World × List Receipt =>
          decide (p.1.pool.investors ≠ q.1.pool.investors))
        (runAll (PartyCall.run (sampleEnv 9)) inTurns w))
      (runAll (PartyCall.run (sampleEnv 9)) oneByOne w)) (by decide +kernel)
  obtain ⟨⟨t, rs⟩, ht, hcheck⟩ := isOkAnd_eq_true.mp hcheck
  obtain ⟨⟨u, rs'⟩, hu, hne⟩ := isOkAnd_eq_true.mp hcheck
  have hw := History.reachable hh hw₀
  exact ⟨w, t, u, rs, rs', hw, ht, hu, of_decide_eq_true hne,
    parties_interleave hw oneByOne_inTurns ht hu⟩

end Floor
