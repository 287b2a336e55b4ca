import FloorProgram.Preservation

/-!
# The code does what the effects say

`exec_effect`: in a world that satisfies the invariant, every successful instruction is one of the
cases of `Effect`.  Together with `Effect.inv` this makes the invariant hold in every reachable
world (`reachable_inv`).
-/

namespace Floor

open Checked Loop Keyed Search ProRata

variable {env : Env} {w w' : World} {ctx : Context} {r : Receipt}

/-! ## Settings -/

/-- A setter demands the admin and its check, and changes the state alone. -/
lemma adminSet_eq_ok {check : Except TxError Unit} {update : ProgramState → ProgramState} :
    adminSet ctx w check update = .ok (w', r) ↔
      w.state.admin = ctx.signer ∧ check = .ok () ∧ w' = { w with state := update w.state } ∧
        r = {} := by
  simp only [adminSet, bind_eq_ok, adminOnly_eq_ok, pure_eq_ok, Prod.mk.injEq]
  constructor
  · rintro ⟨_, hadmin, _, hcheck, rfl, rfl⟩
    exact ⟨hadmin, hcheck, rfl, rfl⟩
  · rintro ⟨hadmin, hcheck, rfl, rfl⟩
    exact ⟨(), hadmin, (), hcheck, rfl, rfl⟩

/-- A setter writes settings, and its check keeps the parameters viable. -/
lemma adminSet_effect {i : Instruction} {check : Except TxError Unit}
    {update : ProgramState → ProgramState} (hset : adminSet ctx w check update = .ok (w', r))
    (hi : i.configures = true)
    (hupdate : update w.state = w.state.configured (update w.state).settings)
    (hviable : check = .ok () → Viable (w.decimals env) (update w.state)) :
    Effect env w ctx i w' r := by
  obtain ⟨-, hcheck, rfl, rfl⟩ := adminSet_eq_ok.mp hset
  have hviable := hviable hcheck
  rw [hupdate] at hviable ⊢
  exact .Configure hi hviable

/-- A new price is positive and viable with the size there is. -/
lemma setFloorPrice_effect {p : UInt64} (h : Inv env w)
    (hx : setFloorPrice ctx p.toNat w = .ok (w', r)) :
    Effect env w ctx (.SetFloorPrice p) w' r := by
  refine adminSet_effect hx rfl rfl fun hcheck => ?_
  simp only [bind_eq_ok, ensure_eq_ok, requireViableRoundParams_eq_ok] at hcheck
  obtain ⟨-, hpos, -, -, hcap, -⟩ := hcheck
  have hv := h.viable
  rw [hv.decimals] at hcap
  exact ⟨hv.decimals, hv.scale, hpos, p.toNat_lt, hv.size_min, hv.size_lt, hcap, hv.lock_nonneg,
    hv.lock_lt⟩

/-- A new size is at least the smallest sale and viable with the price there is. -/
lemma setRoundSize_effect {n : UInt64} (h : Inv env w)
    (hx : setRoundSize ctx n.toNat w = .ok (w', r)) :
    Effect env w ctx (.SetRoundSize n) w' r := by
  refine adminSet_effect hx rfl rfl fun hcheck => ?_
  simp only [bind_eq_ok, ensure_eq_ok, requireViableRoundParams_eq_ok] at hcheck
  obtain ⟨-, -, -, -, hcap, hmin⟩ := hcheck
  have hv := h.viable
  rw [hv.decimals] at hcap
  exact ⟨hv.decimals, hv.scale, hv.price_pos, hv.price_lt, hmin, n.toNat_lt, hcap, hv.lock_nonneg,
    hv.lock_lt⟩

/-- A new lock period is not negative. -/
lemma setLockPeriod_effect {t : Int64} (h : Inv env w)
    (hx : setLockPeriod ctx t.toInt w = .ok (w', r)) :
    Effect env w ctx (.SetLockPeriod t) w' r := by
  refine adminSet_effect hx rfl rfl fun hcheck => ?_
  rw [ensure_eq_ok] at hcheck
  have hv := h.viable
  exact ⟨hv.decimals, hv.scale, hv.price_pos, hv.price_lt, hv.size_min, hv.size_lt, hv.cap_pos,
    hcheck, t.toInt_lt⟩

lemma setUsdcWithdrawLock_effect {t : Int64} (h : Inv env w)
    (hx : setUsdcWithdrawLock ctx t.toInt w = .ok (w', r)) :
    Effect env w ctx (.SetUsdcWithdrawLock t) w' r :=
  adminSet_effect hx rfl rfl fun _ => { h.viable with }

lemma setSellPaused_effect {b : Bool} (h : Inv env w)
    (hx : setSellPaused ctx b w = .ok (w', r)) :
    Effect env w ctx (.SetSellPaused b) w' r :=
  adminSet_effect hx rfl rfl fun _ => { h.viable with }

lemma setFrozen_effect {b : Bool} (h : Inv env w)
    (hx : setFrozen ctx b w = .ok (w', r)) :
    Effect env w ctx (.SetFrozen b) w' r :=
  adminSet_effect hx rfl rfl fun _ => { h.viable with }

lemma transferAuthority_effect {k : Pubkey} (h : Inv env w)
    (hx : transferAuthority ctx k w = .ok (w', r)) :
    Effect env w ctx (.TransferAuthority k) w' r :=
  adminSet_effect hx rfl rfl fun _ => { h.viable with }

/-- The role goes to the one who was nominated, and nobody is nominated any more. -/
lemma acceptAuthority_effect (h : Inv env w) (hx : acceptAuthority ctx w = .ok (w', r)) :
    Effect env w ctx .AcceptAuthority w' r := by
  simp only [acceptAuthority, bind_eq_ok, ensure_eq_ok, pure_eq_ok, Prod.mk.injEq] at hx
  obtain ⟨_, -, _, -, rfl, rfl⟩ := hx
  exact .Configure (c := { w.state.settings with admin := w.state.pendingAdmin, pendingAdmin := 0 })
    rfl (h.viable.of_eq rfl rfl rfl rfl)

lemma setInvestorUsdcUnlock_effect {k : Pubkey} {ts : Int64}
    (hx : setInvestorUsdcUnlock ctx k ts.toInt w = .ok (w', r)) :
    Effect env w ctx (.SetInvestorUsdcUnlock k ts) w' r := by
  simp only [setInvestorUsdcUnlock, bind_eq_ok, adminOnly_eq_ok, ensure_eq_ok, pure_eq_ok,
    Prod.mk.injEq] at hx
  obtain ⟨_, -, _, hsome, rfl, rfl⟩ := hx
  obtain ⟨r, hr⟩ := Option.isSome_iff_exists.mp hsome
  exact .SetUnlock hr

/-! ## Rent -/

lemma fundTreasury_effect {a : UInt64} (hx : fundTreasury ctx a.toNat w = .ok (w', r)) :
    Effect env w ctx (.FundTreasury a) w' r := by
  simp only [fundTreasury, bind_eq_ok, pure_eq_ok, Prod.mk.injEq] at hx
  obtain ⟨_, -, _, -, _, -, _, -, rfl, rfl⟩ := hx
  exact .ManageRent rfl (List.Sublist.refl _)

lemma withdrawTreasury_effect {a : UInt64} (hx : withdrawTreasury ctx a.toNat w = .ok (w', r)) :
    Effect env w ctx (.WithdrawTreasury a) w' r := by
  simp only [withdrawTreasury, bind_eq_ok, pure_eq_ok, Prod.mk.injEq] at hx
  obtain ⟨_, -, _, -, _, -, _, -, rfl, rfl⟩ := hx
  exact .ManageRent rfl (List.Sublist.refl _)

lemma closeRoundRecord_effect {i : UInt64} (hx : closeRoundRecord env ctx i.toNat w = .ok (w', r)) :
    Effect env w ctx (.CloseRoundRecord i) w' r := by
  simp only [closeRoundRecord, bind_eq_ok, pure_eq_ok, Prod.mk.injEq] at hx
  obtain ⟨_, -, _, -, _, -, _, -, rfl, rfl⟩ := hx
  exact .ManageRent rfl List.filter_sublist

/-! ## The lobby -/

/-- A deposit is credited if it fits and its unlock time does. -/
lemma creditDeposit_eq_ok {now withdrawLock : ℤ} {v a : ℕ} {x x' : InvestorRecord} :
    creditDeposit now withdrawLock v a x = .ok x' ↔
      x.usdcDeposited + a < 2 ^ 64 ∧
        ∃ ts, extendUnlock now withdrawLock x.usdcUnlockTs = .ok ts ∧
          x' = creditedRecord v a ts x := by
  simp only [creditDeposit, bind_eq_ok, arith_eq_ok, checkedAdd_eq_some, pure_eq_ok]
  constructor
  · rintro ⟨_, ⟨hfit, rfl⟩, ts, hts, rfl⟩
    exact ⟨hfit, ts, hts, rfl⟩
  · rintro ⟨hfit, ts, hts, rfl⟩
    exact ⟨_, ⟨hfit, rfl⟩, ts, hts, rfl⟩

/-- A deposit credits the record of the signer, or appends one. -/
lemma depositUsdc_effect {m : Pubkey} {n : AccountKey} {a : UInt64}
    (hx : depositUsdc ctx m n a.toNat w = .ok (w', r)) :
    Effect env w ctx (.DepositUsdc m n a) w' r := by
  simp only [depositUsdc, bind_eq_ok, ensure_eq_ok, verifyAatNftAndGetAllocation_eq_ok,
    transferIn_eq_ok, arith_eq_ok, checkedAdd_eq_some, pure_eq_ok, Prod.mk.injEq] at hx
  obtain ⟨_, -, _, -, _, -, _, -, nft, ⟨-, hnft⟩, _, -, _, -, _, hcount, _, ⟨-, -, rfl⟩,
    investors, hinto, _, ⟨hlobby, rfl⟩, rfl, rfl⟩ := hx
  rw [depositInto] at hinto
  split at hinto
  · rename_i x hx
    simp only [bind_eq_ok, creditDeposit_eq_ok, pure_eq_ok] at hinto
    obtain ⟨_, ⟨-, ts, hts, rfl⟩, rfl⟩ := hinto
    rw [modifyFirst_congr (f := fun _ => creditedRecord nft.aatVolume a.toNat ts x)
      (g := creditedRecord nft.aatVolume a.toNat ts) hx rfl]
    exact .Deposit hnft hx hts hlobby
  · rename_i hnew
    simp only [bind_eq_ok, creditDeposit_eq_ok, pure_eq_ok] at hinto
    obtain ⟨_, ⟨-, ts, hts, rfl⟩, rfl⟩ := hinto
    refine .Join hnft hnew (hcount.resolve_right ?_) hts hlobby
    simp [hnew]

/-- A withdrawal debits the record of the signer by what it pays. -/
lemma withdrawUsdc_effect {m : Pubkey} {a : UInt64}
    (hx : withdrawUsdc ctx m a.toNat w = .ok (w', r)) :
    Effect env w ctx (.WithdrawUsdc m a) w' r := by
  simp only [withdrawUsdc, bind_eq_ok, ensure_eq_ok, okOr_eq_ok, arith_eq_ok, checkedSub_eq_some,
    transferOut_eq_ok, pure_eq_ok, Prod.mk.injEq] at hx
  obtain ⟨_, -, _, -, x, hx, _, hts, _, hpos, _, hle, _, ⟨-, rfl⟩, _, ⟨-, hvault, rfl⟩, _,
    ⟨-, rfl⟩, rfl, rfl⟩ := hx
  rw [modifyFirst_congr
    (f := fun y => { y with usdcDeposited := x.usdcDeposited
      - if a.toNat = U64_MAX then x.usdcDeposited else a.toNat })
    (g := debitedRecord (if a.toNat = U64_MAX then x.usdcDeposited else a.toNat)) hx rfl]
  exact .Withdraw hx hts hle hvault rfl hpos

/-! ## The pool -/

/-- A refund leaves the vault and the lobby together. -/
lemma payRefund_eq_ok {vault lobby refund vault' lobby' : ℕ}
    (h : payRefund ctx vault lobby refund = .ok (vault', lobby')) :
    refund ≤ vault ∧ vault' = vault - refund ∧ lobby' = lobby - refund := by
  rw [payRefund] at h
  split_ifs at h with hpos
  · simp only [bind_eq_ok, transferOut_eq_ok, arith_eq_ok, checkedSub_eq_some, pure_eq_ok,
      Prod.mk.injEq] at h
    obtain ⟨_, ⟨-, hle, rfl⟩, _, ⟨-, rfl⟩, rfl, rfl⟩ := h
    exact ⟨hle, rfl, rfl⟩
  · simp only [Except.ok.injEq, Prod.mk.injEq] at h
    omega

/-- A removal frees the slot of an idle investor and refunds his deposit. -/
lemma removeInvestorFromPool_effect {k m : Pubkey}
    (hx : removeInvestorFromPool ctx k m w = .ok (w', r)) :
    Effect env w ctx (.RemoveInvestorFromPool k m) w' r := by
  simp only [removeInvestorFromPool, bind_eq_ok, adminOnly_eq_ok, ensure_eq_ok, okOr_eq_ok,
    Prod.exists, pure_eq_ok, Prod.mk.injEq] at hx
  obtain ⟨_, -, _, -, idx, hidx, x, hget, _, hinactive, vault, lobby, hrefund, rfl, rfl⟩ := hx
  obtain ⟨hlt, hk, -⟩ := position_eq_some hidx
  obtain rfl : w.pool.investors[idx] = x := by
    rw [List.getElem?_eq_getElem hlt] at hget
    exact Option.some.inj hget
  obtain ⟨hvault, rfl, rfl⟩ := payRefund_eq_ok hrefund
  exact .Remove hlt rfl hk hinactive.2 hvault

/-- A cancelled round gives every lock back. -/
lemma cancelRound_effect (hx : cancelRound ctx w = .ok (w', r)) :
    Effect env w ctx .CancelRound w' r := by
  simp only [cancelRound, bind_eq_ok, adminOnly_eq_ok, ensure_eq_ok, Prod.exists, committed_eq_ok,
    pure_eq_ok, Prod.mk.injEq] at hx
  obtain ⟨_, -, _, hstarted, _, hempty, investors, _, ⟨hl, ht⟩, rfl, rfl⟩ := hx
  rw [forMut_unlockRecord (Prod.ext hl ht)]
  exact .Cancel hstarted hempty

/-- A minted NFT is new, and its volume joins the total. -/
lemma mintAatNft_effect {k : Pubkey} {v : UInt64} (hx : mintAatNft ctx k v.toNat w = .ok (w', r)) :
    Effect env w ctx (.MintAatNft k v) w' r := by
  simp only [mintAatNft, bind_eq_ok, adminOnly_eq_ok, ensure_eq_ok, require_eq_ok, arith_eq_ok,
    checkedAdd_eq_some, pure_eq_ok, Prod.mk.injEq] at hx
  obtain ⟨_, -, _, -, _, -, _, ⟨-, rfl⟩, _, htotal, _, hnew, _, -, rfl, rfl⟩ := hx
  exact .Mint (by simpa using hnew) htotal

/-- An updated volume replaces the old one in the NFT, the record and the total. -/
lemma updateAatVolume_effect {k : Pubkey} {v : UInt64}
    (hx : updateAatVolume ctx k v.toNat w = .ok (w', r)) :
    Effect env w ctx (.UpdateAatVolume k v) w' r := by
  simp only [updateAatVolume, bind_eq_ok, adminOnly_eq_ok, ensure_eq_ok, require_eq_ok,
    verifyAatNftAndGetAllocation_eq_ok, arith_eq_ok, checkedAdd_eq_some, checkedSub_eq_some,
    pure_eq_ok, Prod.mk.injEq] at hx
  obtain ⟨_, -, _, hidle, nft, ⟨-, hnft⟩, _, ⟨hle, rfl⟩, _, ⟨-, rfl⟩, _, htotal, _, -, rfl,
    rfl⟩ := hx
  exact .UpdateVolume hidle hnft hle htotal

/-! ## Claims -/

/-- A claim pays one open entry and clears it, or closes the account with it. -/
lemma claimWaln_effect {m : Pubkey} {i : UInt64}
    (hx : claimWaln env ctx m i.toNat w = .ok (w', r)) :
    Effect env w ctx (.ClaimWaln m i) w' r := by
  simp only [claimWaln, takeAllocation, bind_eq_ok, okOr_eq_ok, require_eq_ok, ensure_eq_ok,
    arith_eq_ok, checkedSub_eq_some, Prod.exists, transferOut_eq_ok, pure_eq_ok, Prod.mk.injEq]
    at hx
  obtain ⟨account, haccount, _, -, _, -, _, -, _, _, ⟨_, hunlock, idx, hidx, a, ha, _, hpos, _,
    ⟨hrem, rfl⟩, rfl, rfl⟩, _, -, _, ⟨-, hvault, rfl⟩, treasury, accounts, hstore, rfl, rfl⟩ := hx
  exact .Claim haccount hunlock hidx ha hpos hrem hvault hstore

/-! ## Settling -/

/-- A settlement with entries appends the account that holds them. -/
lemma writeRoundLockedWaln_ok {treasury lamports i treasury' : ℕ} {unlock : ℤ}
    {entries : List InvestorAlloc} {accounts accounts' : List (Account RoundLockedWaln)}
    (hne : entries ≠ [])
    (h : writeRoundLockedWaln env treasury lamports i unlock entries accounts
      = .ok (treasury', accounts')) :
    ∃ lamports', accounts' = accounts ++
      [{ lamports := lamports'
         data := { roundIndex := i, bump := env.bump (.RoundLockedWaln i), unlock := unlock,
                   remainingToClaim := entries.length, investors := entries } }] := by
  rw [writeRoundLockedWaln, if_neg hne] at h
  simp only [bind_eq_ok, Prod.exists, pure_eq_ok, Prod.mk.injEq] at h
  obtain ⟨_, l, -, -, rfl⟩ := h
  exact ⟨l, rfl⟩

/-- A settlement appends the record of its round. -/
lemma writeRoundRecord_ok {treasury lamports treasury' : ℕ} {record : RoundRecord}
    {accounts accounts' : List (Account RoundRecord)}
    (h : writeRoundRecord env treasury lamports record accounts = .ok (treasury', accounts')) :
    ∃ lamports', accounts' = accounts ++ [{ lamports := lamports', data := record }] := by
  simp only [writeRoundRecord, bind_eq_ok, Prod.exists, pure_eq_ok, Prod.mk.injEq] at h
  obtain ⟨_, l, -, -, rfl⟩ := h
  exact ⟨l, rfl⟩

/-- The entries of a settlement are not empty while there is a participant. -/
lemma Settlement.entries_ne_nil {investors investors' : List InvestorRecord}
    {entries : List InvestorAlloc} {usdc : ℕ} (h : Settlement investors investors' entries usdc)
    (hsome : participants investors ≠ []) : entries ≠ [] := by
  intro hnil
  have := h.length_entries
  rw [hnil] at this
  exact hsome (List.length_eq_zero_iff.mp this.symm)

/-- **A forced close** settles the round and charges exactly what its sellers were paid. -/
lemma closeRound_effect (h : Inv env w) (hx : closeRound env ctx w = .ok (w', r)) :
    Effect env w ctx .CloseRound w' r := by
  simp only [closeRound, bind_eq_ok, adminOnly_eq_ok, ensure_eq_ok] at hx
  obtain ⟨_, -, _, hstarted, _, hsold, hx⟩ := hx
  split at hx
  · simp only [bind_eq_ok, ensure_eq_ok, walnScale_eq_ok, arith_eq_ok, checkedAddI64_eq_some,
      Prod.exists, checkedSub_eq_some, checkedAdd_eq_some, pure_eq_ok, Prod.mk.injEq] at hx
    obtain ⟨_, -, _, -, _, ⟨-, rfl⟩, _, ⟨⟨-, hunlock⟩, rfl⟩, investors, t, hpool, treasury₁,
      accounts, haccounts, treasury₂, records, hrecords, _, ⟨hdust, rfl⟩, _, ⟨-, rfl⟩, _,
      ⟨hlobby, rfl⟩, _, ⟨-, rfl⟩, rfl, rfl⟩ := hx
    have hround := h.round hstarted
    rw [h.viable.decimals] at hpool
    obtain ⟨hspent, hwaln, hentries, -, -, hset⟩ := closePool_settlement h.keys
      (fun x hx =>
        hround.closeShare_pos hsold (mem_participants.mp hx).1 (mem_participants.mp hx).2)
      hpool
    obtain ⟨l, rfl⟩ := writeRoundLockedWaln_ok (hset.entries_ne_nil hround.participants_ne_nil)
      haccounts
    obtain ⟨l', rfl⟩ := writeRoundRecord_ok hrecords
    refine .Close hstarted hsold
      { settlement := hset
        waln := by rw [hentries]
        unlock := hunlock
        state := ?_
        usdcVault := rfl
        walnVault := rfl
        aatNfts := rfl
        account := ⟨l, rfl⟩
        record := ⟨l', t.totalAatVolumeAtTrigger, ?_⟩ }
    · rw [hspent, hwaln, Nat.sub_self]
      rfl
    · rw [hspent, hwaln, hentries]
  · simp at hx

/-- The world without the count of locked USDC, which the settlement of a full round leaves to the
start of the next one. -/
def World.unlockedForRound (w : World) : World :=
  { w with state := { w.state with totalUsdcLockedForRound := 0 } }

/-- The entries of the round's account, if the round is settled in full at time `now`. -/
def World.fullEntries (env : Env) (now : ℤ) (w : World) : List InvestorAlloc :=
  claimableEntries (Floor.fullEntries (10 ^ w.decimals env) w.state.currentRoundFloorPrice now
    w.state.walnDustCarryover w.pool.investors)

/-- The pool, if the round is settled in full at time `now`. -/
def World.fullPool (env : Env) (now : ℤ) (w : World) : List InvestorRecord :=
  w.pool.investors.map (fullRecord (10 ^ w.decimals env) w.state.currentRoundFloorPrice now
    w.state.walnDustCarryover w.pool.investors)

/-- **A full round** is settled, and the participants are charged their locks. -/
lemma settleWorld_ok {remaining : List AccountInfo} {allocated : List InvestorAllocated}
    {closed : RoundClosed} (h : Inv env w) (hstarted : w.state.roundStarted = true)
    (hx : settleWorld env ctx (w.decimals env) w.state.currentRoundFloorPrice remaining w
      = .ok (w', allocated, closed)) :
    ∃ dust,
      Settled env ctx.now (w.fullEntries env ctx.now) (lockedUsdc w.pool.investors) dust w
        w'.unlockedForRound ∧
      w'.pool.investors = w.fullPool env ctx.now ∧
      (w.fullEntries env ctx.now).mapM (allocatedEvent (10 ^ w.decimals env)
        w.state.currentRoundFloorPrice w.state.roundCount
        (ctx.now + w.state.currentRoundLockPeriod)) = .ok allocated ∧
      closed = { roundIndex := w.state.roundCount,
                 walnPurchased := entriesWaln (w.fullEntries env ctx.now),
                 usdcSpent := lockedUsdc w.pool.investors,
                 participantCount := (w.fullEntries env ctx.now).length,
                 unlock := ctx.now + w.state.currentRoundLockPeriod } := by
  unfold settleWorld at hx
  split at hx
  · simp only [dustCarryover, bind_eq_ok, ensure_eq_ok, walnScale_eq_ok, arith_eq_ok,
      checkedAddI64_eq_some, Prod.exists, checkedSub_eq_some, checkedAdd_eq_some, tryFrom_eq_some,
      pure_eq_ok, Prod.mk.injEq] at hx
    obtain ⟨_, ⟨⟨-, hunlock⟩, rfl⟩, _, -, _, -, _, ⟨-, rfl⟩, investors, t, hpool, treasury₁,
      accounts, haccounts, events, hevents, treasury₂, records, hrecords, _, ⟨-, rfl⟩, _,
      ⟨-, rfl⟩, _, ⟨_, ⟨-, rfl⟩, _, ⟨hdust, rfl⟩, -, rfl⟩, rfl, rfl, rfl⟩ := hx
    have hround := h.round hstarted
    obtain ⟨hspent, -, hentries, hlength, hset⟩ := settlePool_settlement h.keys
      (fun x hx => hround.baseWaln_pos (mem_participants.mp hx).1 (mem_participants.mp hx).2)
      hround.participants_ne_nil hpool
    rw [← hset.length_entries] at hlength
    obtain ⟨l, rfl⟩ := writeRoundLockedWaln_ok (hset.entries_ne_nil hround.participants_ne_nil)
      haccounts
    obtain ⟨l', rfl⟩ := writeRoundRecord_ok hrecords
    obtain ⟨hinvestors, -, -, hdata⟩ := settlePool_ok h.keys hpool
    have hfull : w.fullEntries env ctx.now = claimableEntries t.participantData := by
      rw [hdata, World.fullEntries]
    rw [hfull]
    refine ⟨_,
      { settlement := hset
        waln := by rw [hentries]; exact Nat.add_sub_cancel' hdust
        unlock := hunlock
        state := ?_
        usdcVault := rfl
        walnVault := rfl
        aatNfts := rfl
        account := ⟨l, rfl⟩
        record := ⟨l', t.totalAatVolumeAtTrigger, ?_⟩ }, hinvestors, hevents, ?_⟩
    · simp only [World.unlockedForRound, hspent]
    · simp only [World.unlockedForRound, hspent, hentries, hlength]
    · rw [hspent, hentries, hlength]
  · simp at hx

/-- A settlement keeps the decimals. -/
lemma Settled.decimals_eq {now : ℤ} {entries : List InvestorAlloc} {usdc dust : ℕ}
    (hs : Settled env now entries usdc dust w w'.unlockedForRound) :
    w'.decimals env = w.decimals env := by
  have hmint : w'.unlockedForRound.state.walnMint = w.state.walnMint := by rw [hs.state]
  exact congrArg (fun m => (env.mint m).decimals.toNat) hmint

/-- The automatic start opens the next round, or leaves the world with no round. -/
lemma autoStart_ok (hx : autoStart (w.decimals env) w = .ok w') :
    AutoStarted env w.unlockedForRound w' := by
  rw [autoStart] at hx
  split at hx
  · rename_i investors volume locked hstart
    obtain rfl := Except.ok.inj hx
    exact .inl ⟨investors, volume, locked, hstart, rfl⟩
  · rename_i investors e hstart
    split_ifs at hx with he
    · obtain rfl := Except.ok.inj hx
      have hsame : investors = w.pool.investors := by
        refine executeRoundStart_error hstart ?_
        rintro rfl
        rcases he with he | he <;> cases he
      refine .inr ⟨?_, e, congrArg Prod.snd hstart⟩
      rw [hsame]
      rfl

/-- The start of a round with the live parameters finds participants, or finds none; it does not
fail in any other way. -/
lemma Inv.executeRoundStart_total (h : Inv env w) :
    (∃ investors volume locked, executeRoundStart w.pool.investors w.state.roundSizeWaln
      w.state.floorPriceUsdc (w.decimals env) = (investors, .ok (volume, locked))) ∨
    executeRoundStart w.pool.investors w.state.roundSizeWaln w.state.floorPriceUsdc (w.decimals env)
      = (w.pool.investors, .error (.Program .NoEligibleInvestors)) := by
  have hdep : (w.pool.investors.map InvestorRecord.usdcDeposited).sum ≤ poolUsdc w.pool.investors :=
    List.sum_le_sum fun r _ => Nat.le_add_right _ _
  have hlobby := h.lobby.lobby
  have hlt := h.lobby.lobby_lt
  refine Floor.executeRoundStart_total ⟨h.count_le, by omega, h.aat.poolVolume_le h.keys⟩
    h.viable.scale ?_ h.viable.cap_pos
  calc w.state.roundSizeWaln * w.state.floorPriceUsdc < 2 ^ 64 * 2 ^ 64 :=
        Nat.mul_lt_mul'' h.viable.size_lt h.viable.price_lt
    _ = 2 ^ 128 := by norm_num

/-- The start of the next round never makes the sell fail. -/
lemma autoStart_total (h : Inv env w.unlockedForRound) :
    ∃ w', autoStart (w.decimals env) w = .ok w' := by
  have hstart := h.executeRoundStart_total
  unfold autoStart
  rcases hstart with ⟨investors, volume, locked, hstart⟩ | hstart <;>
    simp only [World.unlockedForRound, World.decimals] at hstart ⊢ <;> rw [hstart]
  · exact ⟨_, rfl⟩
  · exact ⟨_, if_pos (.inl rfl)⟩

/-! ## Selling -/

/-- What is left of a round after a sell is nothing, or can be paid for. -/
lemma requirePayableRemainder_ok {n p d : ℕ} {u : Unit}
    (h : requirePayableRemainder n p d = .ok u) : n = 0 ∨ 0 < n * p / 10 ^ d := by
  rw [requirePayableRemainder] at h
  split_ifs at h with h0
  · exact .inl h0
  · simp only [bind_eq_ok, walnScale_eq_ok, mulDiv_eq_ok, ensure_eq_ok] at h
    obtain ⟨_, ⟨-, rfl⟩, _, ⟨-, -, rfl⟩, hpos⟩ := h
    exact .inr hpos

/-- The round a sell goes into, and the plan in its terms. -/
lemma openRound_ok {plan : SalePlan} {pool : InvestorPool} {usdcLocked : ℕ} (h : Inv env w)
    (hneed : plan.needRoundStart = !w.state.roundStarted)
    (hprice : plan.floorPriceUsdc = w.state.effectivePrice)
    (hsize : plan.roundSizeWaln = w.state.effectiveSize)
    (hx : openRound w.pool plan (w.decimals env) = .ok (pool, usdcLocked)) :
    ∃ w₁, Opened env w w₁ ∧ w₁ = { w with pool := pool, state := w.state.opened plan usdcLocked } ∧
      w₁.state.roundStarted = true ∧ w₁.state.currentRoundFloorPrice = w.state.effectivePrice ∧
      w₁.state.currentRoundSizeWaln = w.state.effectiveSize ∧
      w₁.state.currentRoundWaln = w.state.effectiveWaln := by
  refine ⟨_, ?_, rfl, ?_⟩
  · cases hstarted : w.state.roundStarted with
    | true =>
        simp only [openRound, ProgramState.opened, hneed, hstarted] at hx ⊢
        simp only [Bool.not_true, Bool.false_eq_true, if_false, Except.ok.injEq, Prod.mk.injEq]
          at hx ⊢
        obtain ⟨rfl, rfl⟩ := hx
        exact .inl ⟨hstarted, rfl⟩
    | false =>
        simp only [openRound, ProgramState.opened, hneed, hstarted, Bool.not_false, if_true,
          bind_eq_ok, Prod.exists, committed_eq_ok, pure_eq_ok, Prod.mk.injEq] at hx ⊢
        obtain ⟨investors, volume, locked, ⟨hl, ht⟩, rfl, rfl⟩ := hx
        refine .inr ⟨hstarted, investors, volume, locked, ?_, ?_⟩
        · simp only [hprice, hsize, ProgramState.effectivePrice, ProgramState.effectiveSize,
            hstarted, Bool.false_eq_true, if_false] at hl ht
          exact Prod.ext hl ht
        · simp only [hprice, hsize, ProgramState.effectivePrice, ProgramState.effectiveSize,
            hstarted, Bool.false_eq_true, if_false]
  · cases hstarted : w.state.roundStarted with
    | true =>
        simp [ProgramState.opened, hneed, hstarted, ProgramState.effectivePrice,
          ProgramState.effectiveSize, ProgramState.effectiveWaln]
    | false =>
        simp [ProgramState.opened, ProgramState.snapshot, hneed, hstarted, hprice, hsize,
          ProgramState.effectivePrice, ProgramState.effectiveSize, ProgramState.effectiveWaln,
          (h.lobby.idle hstarted).2.1]

/-- What the checks on the amount establish. -/
structure PlannedSale (s : ProgramState) (d maxWaln : ℕ) (plan : SalePlan) : Prop where
  waln_le : s.effectiveWaln ≤ s.effectiveSize
  plan_eq : plan =
    { needRoundStart := !s.roundStarted
      floorPriceUsdc := s.effectivePrice
      roundSizeWaln := s.effectiveSize
      walnAmount := min maxWaln (s.effectiveSize - s.effectiveWaln) }
  amount_pos : 0 < plan.walnAmount
  payable : s.effectiveSize - s.effectiveWaln - plan.walnAmount = 0 ∨
    0 < (s.effectiveSize - s.effectiveWaln - plan.walnAmount) * s.effectivePrice / 10 ^ d
  large : s.effectiveWaln ≠ 0 ∨ MIN_SELL_WALN ≤ plan.walnAmount ∨
    plan.walnAmount = s.effectiveSize - s.effectiveWaln

/-- The plan of a sell follows the terms of the round that runs or begins. -/
lemma planSale_ok {s : ProgramState} {d maxWaln : ℕ} {wm um : Pubkey} {plan : SalePlan}
    (hx : planSale s d wm um maxWaln = .ok plan) :
    wm = s.walnMint ∧ PlannedSale s d maxWaln plan := by
  simp only [planSale, bind_eq_ok, ensure_eq_ok, arith_eq_ok, checkedSub_eq_some, pure_eq_ok] at hx
  obtain ⟨_, -, _, -, _, -, _, hmint, _, -, _, ⟨hle, rfl⟩, _, hpos, _, ⟨-, rfl⟩, _, hpayable, _,
    hlarge, rfl⟩ := hx
  exact ⟨hmint, hle, rfl, hpos, requirePayableRemainder_ok hpayable, hlarge⟩

/-- The seller is paid a positive amount by the vault, and the wALN arrives. -/
lemma paySeller_ok {wm : Pubkey} {d usdcLocked usdcOut : ℕ} {plan : SalePlan} {pool : InvestorPool}
    {remaining : List AccountInfo}
    (hx : paySeller env ctx wm d plan pool usdcLocked w = .ok (remaining, usdcOut, w')) :
    usdcOut = plan.walnAmount * plan.floorPriceUsdc / 10 ^ d ∧ 0 < usdcOut ∧
      usdcOut ≤ w.usdcVault ∧ w.walnVault + plan.walnAmount < 2 ^ 64 ∧
      w' = { w with
        state := { w.state.opened plan usdcLocked with
          currentRoundUsdcSpent := (w.state.opened plan usdcLocked).currentRoundUsdcSpent + usdcOut
          currentRoundWaln := (w.state.opened plan usdcLocked).currentRoundWaln + plan.walnAmount }
        pool := pool
        usdcVault := w.usdcVault - usdcOut
        walnVault := w.walnVault + plan.walnAmount } := by
  simp only [paySeller, bind_eq_ok, ensure_eq_ok, arith_eq_ok, walnScale_eq_ok, mulDivU64_eq_ok,
    transferIn_eq_ok, transferOut_eq_ok, checkedAdd_eq_some, pure_eq_ok, Prod.mk.injEq] at hx
  obtain ⟨_, ⟨-, rfl⟩, _, ⟨-, -, -, rfl⟩, _, hpos, _, -, _, ⟨-, hwaln_lt, rfl⟩, _,
    ⟨-, husdc, rfl⟩, _, ⟨-, rfl⟩, _, ⟨-, rfl⟩, -, rfl, rfl⟩ := hx
  exact ⟨rfl, hpos, husdc, hwaln_lt, rfl⟩

/-- Everything a sell does before it looks whether the round is full. -/
lemma sellIntoRound_ok {wm um : Pubkey} {maxWaln usdcOut : ℕ} {plan : SalePlan}
    {remaining : List AccountInfo} (h : Inv env w)
    (hx : sellIntoRound env ctx wm um maxWaln w = .ok (plan, remaining, usdcOut, w')) :
    ∃ w₁, Opened env w w₁ ∧ Paid env maxWaln plan.walnAmount usdcOut w₁ w' ∧
      (env.mint wm).decimals.toNat = w.decimals env ∧
      plan.floorPriceUsdc = w₁.state.currentRoundFloorPrice ∧
      plan.roundSizeWaln = w₁.state.currentRoundSizeWaln := by
  simp only [sellIntoRound, bind_eq_ok, Prod.exists, pure_eq_ok, Prod.mk.injEq] at hx
  obtain ⟨_, hplan, pool, usdcLocked, hopen, _, _, _, hpay, rfl, rfl, rfl, rfl⟩ := hx
  obtain ⟨rfl, hplanned⟩ := planSale_ok hplan
  obtain ⟨hout, hout_pos, husdc, hwaln_lt, rfl⟩ := paySeller_ok hpay
  have hterms := hplanned.plan_eq
  obtain ⟨w₁, hopened, hw₁, hstarted, hprice, hsize, hwaln⟩ :=
    openRound_ok h (by rw [hterms]) (by rw [hterms]) (by rw [hterms]) hopen
  have hdecimals : w₁.decimals env = w.decimals env := by
    rw [hw₁, World.decimals, ProgramState.opened]
    split_ifs <;> rfl
  refine ⟨w₁, hopened, ?_, rfl, by rw [hprice, hterms], by rw [hsize, hterms]⟩
  refine
    { started := hstarted
      waln_le := by rw [hwaln, hsize]; exact hplanned.waln_le
      amount := by rw [hwaln, hsize, hterms]
      amount_pos := hplanned.amount_pos
      payable := by
        rw [hwaln, hsize, hprice, hdecimals]
        exact hplanned.payable
      large := by
        rw [hwaln, hsize]
        exact hplanned.large
      out := by
        rw [hout, hprice, hdecimals, hterms]
        rfl
      out_pos := hout_pos
      usdc_le := by rw [hw₁]; exact husdc
      waln_lt := by rw [hw₁]; exact hwaln_lt
      world := by rw [hw₁] }

/-- The world a sell looks at when it decides whether the round is full. -/
lemma sellIntoRound_sold {wm um : Pubkey} {maxWaln usdcOut : ℕ} {plan : SalePlan}
    {remaining : List AccountInfo} (h : Inv env w)
    (hopen : w.state.roundStarted = true → RoundOpen (w.decimals env) w.state)
    (hx : sellIntoRound env ctx wm um maxWaln w = .ok (plan, remaining, usdcOut, w')) :
    Inv env w' ∧ w'.state.roundStarted = true ∧
      (env.mint wm).decimals.toNat = w'.decimals env ∧
      plan.floorPriceUsdc = w'.state.currentRoundFloorPrice ∧
      plan.roundSizeWaln = w'.state.currentRoundSizeWaln := by
  obtain ⟨w₁, hopened, hpaid, hdecimals, hprice, hsize⟩ := sellIntoRound_ok h hx
  obtain ⟨hinv₁, -⟩ := inv_opened h hopen hopened
  obtain ⟨hinv', hstarted, -⟩ := inv_paid hinv₁ hpaid
  have hdecimals₁ : w₁.decimals env = w.decimals env := by
    rcases hopened with ⟨-, rfl⟩ | ⟨-, _, _, _, -, rfl⟩ <;> rfl
  have hsame : w'.decimals env = w₁.decimals env ∧
      w'.state.currentRoundFloorPrice = w₁.state.currentRoundFloorPrice ∧
      w'.state.currentRoundSizeWaln = w₁.state.currentRoundSizeWaln := by
    rw [hpaid.world]
    exact ⟨rfl, rfl, rfl⟩
  refine ⟨hinv', hstarted, ?_, ?_, ?_⟩
  · rw [hsame.1, hdecimals₁, hdecimals]
  · rw [hsame.2.1, hprice]
  · rw [hsame.2.2, hsize]

/-- **A sell, phase by phase.** -/
lemma sellWaln_cases {wm um : Pubkey} {maxWaln : ℕ}
    (hx : sellWaln env ctx wm um maxWaln w = .ok (w', r)) :
    ∃ plan remaining usdcOut sold,
      sellIntoRound env ctx wm um maxWaln w = .ok (plan, remaining, usdcOut, sold) ∧
      ((sold.state.currentRoundWaln < plan.roundSizeWaln ∧ w' = sold ∧
          r = { walnIn := plan.walnAmount, usdcOut := usdcOut }) ∨
        (plan.roundSizeWaln ≤ sold.state.currentRoundWaln ∧ ∃ settled allocated closed,
          settleWorld env ctx (env.mint wm).decimals.toNat plan.floorPriceUsdc remaining sold
            = .ok (settled, allocated, closed) ∧
          autoStart (env.mint wm).decimals.toNat settled = .ok w' ∧
          r = { walnIn := plan.walnAmount, usdcOut := usdcOut, allocated := allocated,
                roundClosed := some closed })) := by
  simp only [sellWaln, bind_eq_ok, Prod.exists] at hx
  obtain ⟨plan, remaining, usdcOut, sold, hsell, hx⟩ := hx
  refine ⟨plan, remaining, usdcOut, sold, hsell, ?_⟩
  split_ifs at hx with hfull
  · simp only [settleFullRound, bind_eq_ok, Prod.exists, pure_eq_ok, Prod.mk.injEq] at hx
    obtain ⟨_, _, _, ⟨settled, _, _, hsettle, _, hauto, rfl, rfl, rfl⟩, rfl, rfl⟩ := hx
    exact .inr ⟨hfull, settled, _, _, hsettle, hauto, rfl⟩
  · simp only [pure_eq_ok, Prod.mk.injEq] at hx
    obtain ⟨rfl, rfl⟩ := hx
    exact .inl ⟨Nat.lt_of_not_le hfull, rfl, rfl⟩

/-- A sell goes into a round that runs or begins, and settles it if it fills it. -/
lemma sellWaln_effect {wm um : Pubkey} {maxWaln : UInt64} (h : Inv env w)
    (hopen : w.state.roundStarted = true → RoundOpen (w.decimals env) w.state)
    (hx : sellWaln env ctx wm um maxWaln.toNat w = .ok (w', r)) :
    Effect env w ctx (.SellWaln wm um maxWaln) w' r := by
  obtain ⟨plan, remaining, usdcOut, w₂, hsell, hx⟩ := sellWaln_cases hx
  obtain ⟨w₁, hopened, hpaid, hdecimals, -, -⟩ := sellIntoRound_ok h hsell
  obtain ⟨hinv₂, hstarted, hdecimals₂, hprice, hsize⟩ := sellIntoRound_sold h hopen hsell
  rcases hx with ⟨hpart, rfl, rfl⟩ | ⟨hfull, w₃, allocated, closed, hsettle, hauto, rfl⟩
  · refine .Sell hopened hpaid ?_
    omega
  · rw [hdecimals₂, hprice] at hsettle
    obtain ⟨dust, hsettled, -, hevents, rfl⟩ := settleWorld_ok hinv₂ hstarted hsettle
    rw [hdecimals₂, ← hsettled.decimals_eq] at hauto
    rw [← hdecimals₂, hdecimals] at hevents
    refine .SellFull hopened hpaid ?_ hsettled hevents (autoStart_ok hauto)
    have hle := (hinv₂.round hstarted).waln_le
    omega

/-! ## Every instruction -/

/-- **The code refines the effects.** -/
theorem exec_effect {i : Instruction} (h : Inv env w)
    (hopen : w.state.roundStarted = true → RoundOpen (w.decimals env) w.state)
    (hx : exec env ctx i w = .ok (w', r)) : Effect env w ctx i w' r := by
  cases i with
  | SetFloorPrice p => exact setFloorPrice_effect h hx
  | SetRoundSize n => exact setRoundSize_effect h hx
  | SetLockPeriod t => exact setLockPeriod_effect h hx
  | SetUsdcWithdrawLock t => exact setUsdcWithdrawLock_effect h hx
  | SetInvestorUsdcUnlock k ts => exact setInvestorUsdcUnlock_effect hx
  | SetSellPaused b => exact setSellPaused_effect h hx
  | SetFrozen b => exact setFrozen_effect h hx
  | CancelRound => exact cancelRound_effect hx
  | RemoveInvestorFromPool k m => exact removeInvestorFromPool_effect hx
  | CloseRound => exact closeRound_effect h hx
  | FundTreasury a => exact fundTreasury_effect hx
  | WithdrawTreasury a => exact withdrawTreasury_effect hx
  | DepositUsdc m n a => exact depositUsdc_effect hx
  | WithdrawUsdc m a => exact withdrawUsdc_effect hx
  | SellWaln wm um a => exact sellWaln_effect h hopen hx
  | ClaimWaln m i => exact claimWaln_effect hx
  | MintAatNft k v => exact mintAatNft_effect hx
  | UpdateAatVolume k v => exact updateAatVolume_effect hx
  | TransferAuthority k => exact transferAuthority_effect h hx
  | AcceptAuthority => exact acceptAuthority_effect h hx
  | CloseRoundRecord i => exact closeRoundRecord_effect hx

/-! ## Reachable worlds -/

/-- A fresh deployment satisfies the invariant. -/
lemma inv_initial (h : Initial env w) : Inv env w ∧ w.state.roundStarted = false := by
  obtain ⟨ctx, usdcMint, walnMint, price, size, lock, h⟩ := h
  simp only [initializeHandler, bind_eq_ok, ensure_eq_ok, requireViableRoundParams_eq_ok,
    pure_eq_ok] at h
  obtain ⟨_, -, _, hprice, _, -, _, ⟨hscale, -, hcap, hmin⟩, _, hlock, _, -, rfl⟩ := h
  refine ⟨?_, rfl⟩
  exact
    { keys := List.nodup_nil
      count_le := Nat.zero_le _
      viable := ⟨rfl, hscale, hprice, price.toNat_lt, hmin, size.toNat_lt, hcap, hlock,
        lock.toInt_lt⟩
      lobby := ⟨rfl, Nat.pow_pos (by decide), rfl, fun _ => ⟨rfl, rfl, rfl⟩⟩
      round := fun hyes => Bool.noConfusion hyes
      aat := ⟨List.nodup_nil, rfl, Nat.zero_le _, by simp⟩
      waln := ⟨List.nodup_nil, by simp, by simp, by simp, rfl, Nat.pow_pos (by decide)⟩ }

/-- A fresh deployment has nobody in its pool and no settled rounds. -/
lemma Initial.empty (h : Initial env w) : w.pool.investors = [] ∧ w.roundLockedWaln = [] := by
  obtain ⟨ctx, usdcMint, walnMint, price, size, lock, h⟩ := h
  simp only [initializeHandler, bind_eq_ok, pure_eq_ok] at h
  obtain ⟨_, -, _, -, _, -, _, -, _, -, _, -, rfl⟩ := h
  exact ⟨rfl, rfl⟩

/-- **Every reachable world satisfies the invariant**, and a running round is open in it. -/
theorem reachable_inv (h : Reachable env w) :
    Inv env w ∧ (w.state.roundStarted = true → RoundOpen (w.decimals env) w.state) := by
  refine Transition.Reachable.invariant (P := fun w => Inv env w ∧
    (w.state.roundStarted = true → RoundOpen (w.decimals env) w.state)) (fun w hw => ?_)
    (fun w tx w' _ hw hstep => ?_) h
  · obtain ⟨hinv, hidle⟩ := inv_initial hw
    exact ⟨hinv, fun hyes => absurd (hidle.symm.trans hyes) (by decide)⟩
  · exact (exec_effect hw.1 hw.2 hstep).inv hw.1 hw.2

/-- Every step from a reachable world is one of the effects. -/
theorem Reachable.effect {tx : Tx} (h : Reachable env w) (hs : Step env w tx w') :
    Effect env w tx.ctx tx.instr w' tx.receipt :=
  exec_effect (reachable_inv h).1 (reachable_inv h).2 hs

/-- What a sell from a reachable world has got to before it looks whether the round is full. -/
theorem Reachable.sold {wm um : Pubkey} {maxWaln usdcOut : ℕ} {plan : SalePlan}
    {remaining : List AccountInfo} (h : Reachable env w)
    (hx : sellIntoRound env ctx wm um maxWaln w = .ok (plan, remaining, usdcOut, w')) :
    Inv env w' ∧ w'.state.roundStarted = true ∧
      (env.mint wm).decimals.toNat = w'.decimals env ∧
      plan.floorPriceUsdc = w'.state.currentRoundFloorPrice ∧
      plan.roundSizeWaln = w'.state.currentRoundSizeWaln :=
  sellIntoRound_sold (reachable_inv h).1 (reachable_inv h).2 hx

end Floor
