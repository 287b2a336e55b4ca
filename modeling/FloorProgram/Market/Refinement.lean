import FloorProgram.Market.Abstraction

/-!
# The program refines the market

Every successful transaction is a sequence of steps of the market: most are one step or none, and a
sell is up to four, since it may begin the round it goes into, settle it, and begin the next.

* `Begun.market`, `Paid.market`, `Settled.market` — the phases of a sell.
* `Shows` — which events of the market can be seen of a transaction: they have its signer, they move
  what its receipt says, and they are of a kind its instruction allows.
* `program_simulates_market` — every run of the program is a run of the market.
-/

namespace Floor

open Checked Loop Keyed Search

variable {env : Env} {w w' : World} {ctx : Context} {k : Pubkey}

/-! ## The phases of a sell -/

/-- Beginning a round locks money that was free. -/
lemma Begun.market (h : Inv env w) (hidle : w.state.roundStarted = false)
    (hfrozen : w.state.frozen = false) (hpaused : w.state.sellPaused = false)
    (hb : Begun env w w') (k : Pubkey) :
    ∃ lock, Market.Step (w.market env) ⟨k, .start lock⟩ (w'.market env) := by
  obtain ⟨hinv', -⟩ := inv_begun h hidle hb
  obtain ⟨investors, volume, locked, hstart, rfl⟩ := hb
  have hround := hinv'.round rfl
  have hzero := lockedUsdc_eq_zero.mp (h.lobby.idle hidle).1
  have hmoved := (executeRoundStart_ok hzero hstart).moved
  set free := tally byInvestor InvestorRecord.usdcDeposited w.pool.investors
  set free' := tally byInvestor InvestorRecord.usdcDeposited investors
  set lock := tally byInvestor InvestorRecord.usdcLockedCurrentRound investors
  have hsum : free' + lock = free := by
    have hold : tally byInvestor InvestorRecord.usdcLockedCurrentRound w.pool.investors = 0 :=
      tally_eq_zero hzero
    have htally : tally byInvestor InvestorRecord.position investors
        = tally byInvestor InvestorRecord.position w.pool.investors :=
      tally_of_forall₂ hmoved fun r r' hr => ⟨hr.investor, hr.usdc⟩
    have hsplit : ∀ l, tally byInvestor InvestorRecord.position l
        = tally byInvestor InvestorRecord.usdcDeposited l
          + tally byInvestor InvestorRecord.usdcLockedCurrentRound l := fun l => tally_add
    rw [hsplit, hsplit, hold, add_zero] at htally
    exact htally
  have hdegree : lock.degree = lockedUsdc investors := degree_tally _
  refine ⟨lock, ?_⟩
  have hmarket : World.market env { w with
      pool := { investors := investors }
      state := w.state.snapshot w.state.floorPriceUsdc w.state.roundSizeWaln locked }
      = { w.market env with
          round := some ⟨(w.market env).terms, 0, 0⟩, free := free - lock, locked := lock } := by
    have hterms : (w.state.snapshot w.state.floorPriceUsdc w.state.roundSizeWaln
        locked).marketRound = some ⟨(w.market env).terms, 0, 0⟩ := by
      rw [marketRound_of_started rfl]
      simp only [ProgramState.snapshot, (h.lobby.idle hidle).2.1]
      rfl
    rw [World.market, hterms, ← eq_tsub_of_add_eq hsum]
    rfl
  rw [hmarket]
  refine .start hfrozen hpaused (marketRound_of_idle hidle) ?_ ?_ ?_
  · rintro hlock
    have := hround.locked_pos
    rw [hlock, map_zero] at hdegree
    exact absurd hdegree this.ne
  · exact le_of_le_of_eq le_add_self hsum
  · rw [hdegree]
    exact hround.locked_le

/-- Paying a seller is a sale. -/
lemma Paid.market {maxWaln walnAmount usdcOut : ℕ} (hfrozen : w.state.frozen = false)
    (hpaused : w.state.sellPaused = false) (hp : Paid env maxWaln walnAmount usdcOut w w')
    (k : Pubkey) :
    Market.Step (w.market env) ⟨k, .sell walnAmount usdcOut⟩ (w'.market env) := by
  have hmarket : w'.market env
      = { w.market env with
          round := some ⟨⟨w.state.currentRoundFloorPrice, w.state.currentRoundSizeWaln⟩,
            w.state.currentRoundWaln + walnAmount, w.state.currentRoundUsdcSpent + usdcOut⟩
          money := w.usdcVault - usdcOut
          goods := w.walnVault + walnAmount } := by
    have hround : w'.state.marketRound
        = some ⟨⟨w.state.currentRoundFloorPrice, w.state.currentRoundSizeWaln⟩,
          w.state.currentRoundWaln + walnAmount, w.state.currentRoundUsdcSpent + usdcOut⟩ := by
      rw [hp.world]
      exact marketRound_of_started hp.started
    rw [World.market, hround, hp.world]
    rfl
  rw [hmarket]
  have hfit : w.state.currentRoundWaln + walnAmount ≤ w.state.currentRoundSizeWaln := by
    have hamount := hp.amount
    have hle := hp.waln_le
    omega
  exact Market.Step.sell (m := w.market env) hfrozen hpaused (marketRound_of_started hp.started)
    hp.amount_pos hfit hp.out hp.out_pos hp.usdc_le

/-- A settlement never takes from a deposit, and never gives a commitment back. -/
structure Charged (r r' : InvestorRecord) : Prop where
  investor : r'.investor = r.investor
  deposited : r.usdcDeposited ≤ r'.usdcDeposited
  committed : r.usdcCommitted ≤ r'.usdcCommitted

/-- **Settling a round** charges the locks and owes the entries. -/
lemma Settled.market {now : ℤ} {entries : List InvestorAlloc} {usdc dust : ℕ} (h : Inv env w)
    (hstarted : w.state.roundStarted = true) (hs : Settled env now entries usdc dust w w')
    (hcharged : List.Forall₂ Charged w.pool.investors w'.pool.investors)
    (hmode : (w.state.currentRoundWaln = w.state.currentRoundSizeWaln ∧
        usdc = lockedUsdc w.pool.investors ∧ w.state.frozen = false) ∨
      (k = w.state.admin ∧ 0 < w.state.currentRoundWaln ∧
        usdc = w.state.currentRoundUsdcSpent)) :
    ∃ charge alloc, Market.Step (w.market env) ⟨k, .settle charge alloc dust⟩ (w'.market env) := by
  set dep := tally byInvestor InvestorRecord.usdcDeposited w.pool.investors
  set dep' := tally byInvestor InvestorRecord.usdcDeposited w'.pool.investors with hdep'
  set lock := tally byInvestor InvestorRecord.usdcLockedCurrentRound w.pool.investors with hlock
  set com := tally byInvestor InvestorRecord.usdcCommitted w.pool.investors with hcom
  set com' := tally byInvestor InvestorRecord.usdcCommitted w'.pool.investors with hcom'
  set alloc := tally InvestorAlloc.investor InvestorAlloc.walnAmount entries with halloc
  have hdeple : dep ≤ dep' :=
    tally_le_of_forall₂ hcharged.flip fun r r' hr => ⟨hr.investor.symm, hr.deposited⟩
  have hcomle : com ≤ com' :=
    tally_le_of_forall₂ hcharged.flip fun r r' hr => ⟨hr.investor.symm, hr.committed⟩
  have hsum : dep' + com' = dep + lock + com := by
    have htally : tally byInvestor (fun r => r.usdcDeposited + r.usdcCommitted)
          w'.pool.investors
        = tally byInvestor (fun r => r.usdcDeposited + r.usdcLockedCurrentRound + r.usdcCommitted)
          w.pool.investors :=
      tally_of_forall₂ hs.settlement.records fun r r' hr => ⟨hr.investor, hr.usdc⟩
    rwa [tally_add, tally_add, tally_add] at htally
  have hunlocked : tally byInvestor InvestorRecord.usdcLockedCurrentRound w'.pool.investors = 0 :=
    tally_eq_zero hs.settlement.unlocked
  have hcharge : com' - com ≤ lock := by
    intro j
    have hj := DFunLike.congr_fun hsum j
    have := hdeple j
    simp only [Finsupp.add_apply, Finsupp.tsub_apply] at hj ⊢
    omega
  have hfree : dep' = dep + (lock - (com' - com)) := by
    ext j
    have hj := DFunLike.congr_fun hsum j
    have := hdeple j
    have := hcomle j
    simp only [Finsupp.add_apply, Finsupp.tsub_apply] at hj ⊢
    omega
  have hdegree : (com' - com).degree = usdc := by
    have hsplit := congrArg Finsupp.degree (add_tsub_cancel_of_le hcomle)
    have hcommitted := hs.settlement.charged
    rw [map_add, hcom', hcom, degree_tally, degree_tally, ← hcom', ← hcom] at hsplit
    simp only [committedUsdc] at hcommitted
    omega
  refine ⟨com' - com, alloc, ?_⟩
  obtain ⟨l, haccounts⟩ := hs.account
  have hmarket : w'.market env
      = { w.market env with
          round := none
          rounds := (w.market env).rounds + 1
          carry := dust
          free := dep + (lock - (com' - com))
          locked := 0
          owed := (w.market env).owed + alloc.mapDomain (Prod.mk (w.market env).rounds) } := by
    have hidle : w'.state.marketRound = none := marketRound_of_idle (by rw [hs.state])
    have howed : owedWaln w'.roundLockedWaln
        = owedWaln w.roundLockedWaln + alloc.mapDomain (Prod.mk w.state.roundCount) := by
      rw [haccounts, owed_new]
    rw [World.market, hidle, howed, hunlocked, ← hdep', hfree, hs.usdcVault, hs.walnVault,
      World.decimals, hs.state]
    rfl
  rw [hmarket]
  refine .settle (marketRound_of_started hstarted) ?_ hcharge ?_ ?_
  · rcases hmode with ⟨hfull, husdc, hfrozen⟩ | ⟨hk, hsold, husdc⟩
    · refine .inl ⟨hfull, le_antisymm hcharge ?_, hfrozen⟩
      have hrest : (lock - (com' - com)).degree = 0 := by
        have hsplit := congrArg Finsupp.degree (add_tsub_cancel_of_le hcharge)
        have hlocked : lock.degree = lockedUsdc w.pool.investors := degree_tally _
        rw [map_add] at hsplit
        omega
      exact tsub_eq_zero_iff_le.mp ((Finsupp.degree_eq_zero_iff _).mp hrest)
    · exact .inr ⟨hk, hsold, hdegree.trans husdc⟩
  · have hentries : NodupKeys InvestorAlloc.investor entries := hs.settlement.sorted.nodupKeys
    ext j
    rw [mem_support_tally hentries]
    show _ ↔ j ∈ lock.support
    rw [mem_support_tally h.keys]
    have hj := hs.settlement.keys.mem_iff (a := j)
    simp only [List.mem_map, mem_participants] at hj
    constructor
    · rintro ⟨a, ha, rfl, -⟩
      obtain ⟨r, ⟨hr, hpos⟩, hk⟩ := hj.mp ⟨a, ha, rfl⟩
      exact ⟨r, hr, hk, hpos⟩
    · rintro ⟨r, hr, hk, hpos⟩
      obtain ⟨a, ha, hk'⟩ := hj.mpr ⟨r, ⟨hr, hpos⟩, hk⟩
      exact ⟨a, ha, hk', hs.settlement.positive a ha⟩
  · rw [halloc, degree_tally]
    exact hs.waln

/-! ## Who may do what -/

/-- The instructions under the admin constraint. -/
def Instruction.adminOnly : Instruction → Bool
  | .DepositUsdc _ _ _ | .WithdrawUsdc _ _ | .SellWaln _ _ _ | .ClaimWaln _ _
  | .AcceptAuthority => false
  | _ => true

/-- The instructions a freeze stops. -/
def Instruction.freezes : Instruction → Bool
  | .DepositUsdc _ _ _ | .WithdrawUsdc _ _ | .SellWaln _ _ _ | .ClaimWaln _ _
  | .MintAatNft _ _ => true
  | _ => false

lemma signer_of_adminOnly {α : Type} {s : ProgramState} {f : Unit → Except TxError α} {a : α}
    (h : (adminOnly ctx s >>= f) = .ok a) : ctx.signer = s.admin := by
  simp only [bind_eq_ok, adminOnly_eq_ok] at h
  exact h.choose_spec.1.symm

/-- Only the admin gets past the admin constraint. -/
lemma exec_admin {i : Instruction} {r : Receipt} (hi : i.adminOnly = true)
    (hx : exec env ctx i w = .ok (w', r)) : ctx.signer = w.state.admin := by
  cases i with
  | DepositUsdc | WithdrawUsdc | SellWaln | ClaimWaln | AcceptAuthority => cases hi
  | _ => exact signer_of_adminOnly hx

/-- A sell needs a contract that is neither frozen nor paused. -/
lemma sellIntoRound_live {wm um : Pubkey} {maxWaln usdcOut : ℕ} {plan : SalePlan}
    {remaining : List AccountInfo} {sold : World}
    (hx : sellIntoRound env ctx wm um maxWaln w = .ok (plan, remaining, usdcOut, sold)) :
    w.state.frozen = false ∧ w.state.sellPaused = false := by
  simp only [sellIntoRound, planSale, bind_eq_ok, ensure_eq_ok] at hx
  obtain ⟨_, ⟨_, hfrozen, _, hpaused, -⟩, -⟩ := hx
  exact ⟨hfrozen, hpaused⟩

/-- A frozen contract refuses deposits, withdrawals, sells, claims and new NFTs. -/
lemma exec_unfrozen {i : Instruction} {r : Receipt} (hi : i.freezes = true)
    (hx : exec env ctx i w = .ok (w', r)) : w.state.frozen = false := by
  cases i with
  | DepositUsdc m n a =>
      simp only [exec, depositUsdc, bind_eq_ok, ensure_eq_ok] at hx
      obtain ⟨_, -, _, hfrozen, -⟩ := hx
      exact hfrozen
  | WithdrawUsdc m a =>
      simp only [exec, withdrawUsdc, bind_eq_ok, ensure_eq_ok] at hx
      exact hx.choose_spec.1
  | SellWaln wm um a =>
      obtain ⟨_, _, _, _, hsell, -⟩ := sellWaln_cases hx
      exact (sellIntoRound_live hsell).1
  | ClaimWaln m i =>
      simp only [exec, claimWaln, bind_eq_ok, ensure_eq_ok] at hx
      obtain ⟨_, -, _, -, _, hfrozen, -⟩ := hx
      exact hfrozen
  | MintAatNft k v =>
      simp only [exec, mintAatNft, bind_eq_ok, ensure_eq_ok] at hx
      obtain ⟨_, -, _, -, _, hfrozen, -⟩ := hx
      exact hfrozen
  | _ => cases hi

/-! ## What can be seen of a transaction -/

/-- The events an instruction allows. -/
def Instruction.Allows : Instruction → Market.Action Pubkey → Prop
  | .SetFloorPrice p, .setTerms t => t.price = p.toNat
  | .SetRoundSize n, .setTerms t => t.size = n.toNat
  | .SetSellPaused b, .pause b' => b' = b
  | .SetFrozen b, .freeze b' => b' = b
  | .TransferAuthority k, .nominate o => o = toNominee k
  | .AcceptAuthority, .accept => True
  | .CancelRound, .cancel => True
  | .RemoveInvestorFromPool k _, .refund k' _ => k' = k
  | .CloseRound, .settle _ _ _ => True
  | .DepositUsdc _ _ a, .deposit n => n = a.toNat
  | .WithdrawUsdc _ a, .withdraw n => a.toNat ≠ U64_MAX → n = a.toNat
  | .SellWaln _ _ _, .start _ => True
  | .SellWaln _ _ a, .sell n _ => n ≤ a.toNat
  | .SellWaln _ _ _, .settle _ _ _ => True
  | .ClaimWaln _ i, .claim j _ => j = i.toNat
  | _, _ => False

/-- The events `l` are what the market sees of the transaction `e`. -/
structure Shows (e : Transition.Entry World Tx) (l : List (Market.Event Pubkey)) : Prop where
  signer : ∀ x ∈ l, x.signer = e.label.ctx.signer
  kind : ∀ x ∈ l, e.label.instr.Allows x.action
  usdcIn : (l.map Market.Event.moneyIn).sum = e.label.receipt.usdcIn
  usdcOut : (l.map Market.Event.moneyOut).sum = e.label.receipt.usdcOut
  walnIn : (l.map Market.Event.goodsIn).sum = e.label.receipt.walnIn
  walnOut : (l.map Market.Event.goodsOut).sum = e.label.receipt.walnOut

/-- A transaction is matched by steps of the market that it shows. -/
def Matched (env : Env) (w : World) (tx : Tx) (w' : World) : Prop :=
  ∃ l, Shows ⟨w, tx, w'⟩ l ∧ Transition.Steps Market.Step (w.market env) l (w'.market env)

/-- What the market does not see. -/
lemma matched_nil {i : Instruction} (h : w'.market env = w.market env) :
    Matched env w ⟨ctx, i, {}⟩ w' := by
  refine ⟨[], ⟨by simp, by simp, rfl, rfl, rfl, rfl⟩, ?_⟩
  rw [h]
  exact .nil _

/-- What the market sees as one event of the signer. -/
lemma matched_single {i : Instruction} {r : Receipt} {a : Market.Action Pubkey}
    (hstep : Market.Step (w.market env) ⟨ctx.signer, a⟩ (w'.market env)) (hkind : i.Allows a)
    (hin : Market.Event.moneyIn ⟨ctx.signer, a⟩ = r.usdcIn)
    (hout : Market.Event.moneyOut ⟨ctx.signer, a⟩ = r.usdcOut)
    (hwin : Market.Event.goodsIn ⟨ctx.signer, a⟩ = r.walnIn)
    (hwout : Market.Event.goodsOut ⟨ctx.signer, a⟩ = r.walnOut) :
    Matched env w ⟨ctx, i, r⟩ w' := by
  refine ⟨[⟨ctx.signer, a⟩], ⟨?_, ?_, ?_, ?_, ?_, ?_⟩, .single hstep⟩
  · rintro x hx
    rw [List.mem_singleton.mp hx]
  · rintro x hx
    rw [List.mem_singleton.mp hx]
    exact hkind
  · rw [List.map_singleton, List.sum_singleton, hin]
  · rw [List.map_singleton, List.sum_singleton, hout]
  · rw [List.map_singleton, List.sum_singleton, hwin]
  · rw [List.map_singleton, List.sum_singleton, hwout]

/-! ## Instruction by instruction -/

/-- What a deposit, a withdrawal and a removal change: deposits, the vault and the lobby total. -/
lemma market_lobby {lobby vault : ℕ} {investors : List InvestorRecord} {free : Pubkey →₀ ℕ}
    (hfree : tally byInvestor InvestorRecord.usdcDeposited investors = free)
    (hlocked : tally byInvestor InvestorRecord.usdcLockedCurrentRound investors
      = tally byInvestor InvestorRecord.usdcLockedCurrentRound w.pool.investors) :
    World.market env { w with
      state := { w.state with totalUsdcInLobby := lobby }
      pool := { investors := investors }
      usdcVault := vault } = { w.market env with free := free, money := vault } := by
  unfold World.market
  rw [hfree, hlocked]
  rfl

/-- An update of a record that leaves its USDC alone. -/
lemma market_updateInvestor {f : InvestorRecord → InvestorRecord}
    (hkey : ∀ r, (f r).investor = r.investor) (hdep : ∀ r, (f r).usdcDeposited = r.usdcDeposited)
    (hlock : ∀ r, (f r).usdcLockedCurrentRound = r.usdcLockedCurrentRound) :
    World.market env { w with pool := w.updateInvestor k f } = w.market env := by
  unfold World.market World.updateInvestor
  rw [tally_modifyFirst_of_eq hkey hdep, tally_modifyFirst_of_eq hkey hlock]
  rfl

lemma depositUsdc_matched {m : Pubkey} {n : AccountKey} {a : UInt64} {r : Receipt}
    (hx : depositUsdc ctx m n a.toNat w = .ok (w', r)) :
    Matched env w ⟨ctx, .DepositUsdc m n a, r⟩ w' := by
  have hcode := hx
  simp only [depositUsdc, bind_eq_ok, ensure_eq_ok] at hcode
  obtain ⟨_, -, _, hfrozen, _, hpos, -⟩ := hcode
  have heffect : Effect env w ctx (.DepositUsdc m n a) w' r := depositUsdc_effect hx
  cases heffect with
  | Configure hi => cases hi
  | ManageRent hi => cases hi
  | @Deposit _ _ _ nft _ ts hnft hr hts hlobby =>
      refine matched_single (a := .deposit a.toNat) ?_ rfl rfl rfl rfl rfl
      have hfree := tally_modifyFirst_add (v := InvestorRecord.usdcDeposited) (n := a.toNat)
        (f := creditedRecord nft.aatVolume a.toNat ts) rfl hr rfl
      rw [World.updateInvestor, market_lobby hfree
        (tally_modifyFirst_of_eq (fun _ => rfl) fun _ => rfl)]
      exact .deposit hfrozen hpos
  | @Join _ _ _ nft ts hnft hnew hcount hts hlobby =>
      refine matched_single (a := .deposit a.toNat) ?_ rfl rfl rfl rfl rfl
      have hfree : tally byInvestor InvestorRecord.usdcDeposited (w.pool.investors ++
            [creditedRecord nft.aatVolume a.toNat ts (InvestorRecord.empty ctx.signer)])
          = (w.market env).free + Finsupp.single ctx.signer a.toNat := by
        simp [creditedRecord, InvestorRecord.empty, World.market]
      rw [market_lobby hfree (by simp [creditedRecord, InvestorRecord.empty])]
      exact .deposit hfrozen hpos

lemma withdrawUsdc_matched {m : Pubkey} {a : UInt64} {r : Receipt} (h : Inv env w)
    (hx : withdrawUsdc ctx m a.toNat w = .ok (w', r)) :
    Matched env w ⟨ctx, .WithdrawUsdc m a, r⟩ w' := by
  simp only [withdrawUsdc, bind_eq_ok, ensure_eq_ok, okOr_eq_ok, arith_eq_ok, checkedSub_eq_some,
    transferOut_eq_ok, pure_eq_ok, Prod.mk.injEq] at hx
  obtain ⟨_, hfrozen, _, -, x, hr, _, -, _, hpos, _, hle, _, ⟨-, rfl⟩, _, ⟨-, hvault, rfl⟩, _,
    ⟨-, rfl⟩, rfl, rfl⟩ := hx
  set amount := if a.toNat = U64_MAX then x.usdcDeposited else a.toNat with hamount
  refine matched_single (a := .withdraw amount) ?_ (fun hne => if_neg hne) rfl rfl rfl rfl
  have hfree' := tally_modifyFirst_sub (v := InvestorRecord.usdcDeposited) (n := amount)
    (f := fun y => { y with usdcDeposited := x.usdcDeposited - amount }) rfl hr
    (Nat.sub_add_cancel hle)
  rw [market_lobby hfree' (tally_modifyFirst_of_eq (fun _ => rfl) fun _ => rfl)]
  refine .withdraw hfrozen hpos ?_ hvault
  have hfree : (w.market env).free ctx.signer = x.usdcDeposited := by
    rw [World.market, tally_apply h.keys]
    exact valueOf_of_mem h.keys (lookup_mem hr) (lookup_key hr)
  exact hfree ▸ hle

lemma removeInvestorFromPool_matched {j m : Pubkey} {r : Receipt} (h : Inv env w)
    (hx : removeInvestorFromPool ctx j m w = .ok (w', r)) :
    Matched env w ⟨ctx, .RemoveInvestorFromPool j m, r⟩ w' := by
  have hadmin := signer_of_adminOnly hx
  have heffect : Effect env w ctx (.RemoveInvestorFromPool j m) w' r :=
    removeInvestorFromPool_effect hx
  cases heffect with
  | Configure hi => cases hi
  | ManageRent hi => cases hi
  | @Remove _ _ i x hi hr hk hlock hvault =>
      have hmem : x ∈ w.pool.investors := hr ▸ List.getElem_mem hi
      have hsplit : ∀ v : InvestorRecord → ℕ, tally byInvestor v w.pool.investors
          = Finsupp.single (byInvestor w.pool.investors[i]) (v w.pool.investors[i])
            + tally byInvestor v (swapRemove i w.pool.investors) := fun _ => tally_swapRemove hi
      have hfree := hsplit InvestorRecord.usdcDeposited
      have hlocked := hsplit InvestorRecord.usdcLockedCurrentRound
      rw [hr, byInvestor, hk, add_comm] at hfree
      rw [hr, hlock, Finsupp.single_zero, zero_add] at hlocked
      refine matched_single (a := .refund j x.usdcDeposited) ?_ rfl rfl rfl rfl rfl
      rw [market_lobby (eq_tsub_of_add_eq hfree.symm) hlocked.symm]
      refine .refund hadmin ?_ ?_ hvault
      · rw [World.market, tally_apply h.keys, valueOf_of_mem h.keys hmem hk, hlock]
      · rw [World.market, tally_apply h.keys, valueOf_of_mem h.keys hmem hk]

lemma cancelRound_matched {r : Receipt} (hx : cancelRound ctx w = .ok (w', r)) :
    Matched env w ⟨ctx, .CancelRound, r⟩ w' := by
  have hadmin := signer_of_adminOnly hx
  have heffect : Effect env w ctx .CancelRound w' r := cancelRound_effect hx
  cases heffect with
  | Configure hi => cases hi
  | ManageRent hi => cases hi
  | Cancel hstarted hempty =>
      refine matched_single (a := .cancel) ?_ trivial rfl rfl rfl rfl
      have hfree : tally byInvestor InvestorRecord.usdcDeposited
            (w.pool.investors.map unlockedRecord)
          = (w.market env).free + (w.market env).locked := by
        rw [World.market, ← tally_add, tally, List.map_map]
        rfl
      have hlocked : tally byInvestor InvestorRecord.usdcLockedCurrentRound
          (w.pool.investors.map unlockedRecord) = 0 := by
        refine tally_eq_zero fun x hx => ?_
        obtain ⟨y, -, rfl⟩ := List.mem_map.mp hx
        rfl
      have hmarket : World.market env { w with
          state := { w.state with
            roundStarted := false
            currentRoundWaln := 0
            currentRoundUsdcSpent := 0
            totalUsdcLockedForRound := 0 }
          pool := { investors := w.pool.investors.map unlockedRecord } }
          = { w.market env with
              round := none, free := (w.market env).free + (w.market env).locked,
              locked := 0 } := by
        rw [← hfree, ← hlocked]
        rfl
      rw [hmarket]
      exact .cancel hadmin (marketRound_of_started hstarted) hempty

lemma claimWaln_matched {m : Pubkey} {i : UInt64} {r : Receipt} (h : Inv env w)
    (hx : exec env ctx (.ClaimWaln m i) w = .ok (w', r)) :
    Matched env w ⟨ctx, .ClaimWaln m i, r⟩ w' := by
  have hfrozen := exec_unfrozen rfl hx
  have he := claimWaln_effect hx
  obtain ⟨account, a, hc⟩ := he.claimed h
  have howed := owed_claimed h hc
  have hreceipt := hc.receipt
  cases he with
  | Configure hi => cases hi
  | ManageRent hi => cases hi
  | @Claim _ _ account' idx a' treasury accounts haccount hunlock hidx ha hpos hrem hvault hstore =>
      have hamount : a'.walnAmount = a.walnAmount := congrArg Receipt.walnOut hreceipt
      refine matched_single (a := .claim i.toNat a'.walnAmount) ?_ rfl rfl rfl rfl rfl
      have hmarket : World.market env { w with
          walnVault := w.walnVault - a'.walnAmount, treasury := treasury,
          roundLockedWaln := accounts }
          = { w.market env with
              owed := (w.market env).owed - Finsupp.single (i.toNat, ctx.signer) a'.walnAmount
              goods := w.walnVault - a'.walnAmount } := by
        rw [hamount, World.market]
        simp only
        rw [eq_tsub_of_add_eq howed]
        rfl
      rw [hmarket]
      refine .claim hfrozen hpos ?_ hvault
      rw [hamount]
      exact owed_signer h hc

/-! ## Settlements -/

lemma charged_closeRecord {c : CloseTerms} {t t' : CloseTotals} {r r' : InvestorRecord}
    (h : closeRecord c t r = .ok (r', t')) : Charged r r' := by
  rcases Nat.eq_zero_or_pos r.usdcLockedCurrentRound with hlock | hlock
  · rw [closeRecord_of_unlocked hlock] at h
    obtain ⟨rfl, -⟩ := Prod.mk.inj (Except.ok.inj h)
    exact ⟨rfl, le_rfl, le_rfl⟩
  · obtain ⟨-, rfl, -⟩ := (closeRecord_eq_ok hlock).mp h
    exact ⟨rfl, Nat.le_add_right _ _, Nat.le_add_right _ _⟩

/-- What a forced close does to the pool. -/
lemma closeRound_charged {r : Receipt} (hx : closeRound env ctx w = .ok (w', r)) :
    List.Forall₂ Charged w.pool.investors w'.pool.investors := by
  simp only [closeRound, bind_eq_ok] at hx
  obtain ⟨_, -, _, -, _, -, hx⟩ := hx
  split at hx
  · simp only [bind_eq_ok, Prod.exists, pure_eq_ok, Prod.mk.injEq] at hx
    obtain ⟨_, -, _, -, _, -, _, -, investors, t, hpool, _, _, -, _, _, -, _, -, _, -, _, -, _, -,
      rfl, -⟩ := hx
    obtain ⟨-, -, -, hloop, -⟩ := closePool_eq_ok hpool
    refine forall₂_of_forMut ?_ hloop
    exact fun _ _ _ _ => charged_closeRecord
  · cases hx

/-- What a full round does to the pool. -/
lemma charged_fullPool (now : ℤ) (w : World) :
    List.Forall₂ Charged w.pool.investors (w.fullPool env now) := by
  rw [World.fullPool, List.forall₂_map_right_iff, List.forall₂_same]
  exact fun r _ => ⟨rfl, le_rfl, Nat.le_add_right _ _⟩

lemma closeRound_matched {r : Receipt} (h : Inv env w)
    (hx : closeRound env ctx w = .ok (w', r)) : Matched env w ⟨ctx, .CloseRound, r⟩ w' := by
  have hadmin := signer_of_adminOnly hx
  have hcharged := closeRound_charged hx
  cases closeRound_effect h hx with
  | Configure hi => cases hi
  | ManageRent hi => cases hi
  | Close hstarted hsold hsettled =>
      obtain ⟨charge, alloc, hstep⟩ := hsettled.market h hstarted hcharged
        (k := ctx.signer) (.inr ⟨hadmin, hsold, rfl⟩)
      exact matched_single hstep trivial rfl rfl rfl rfl

/-- The round a sell begins, if it begins one. -/
lemma Opened.matched {w₁ : World} (h : Inv env w) (hfrozen : w.state.frozen = false)
    (hpaused : w.state.sellPaused = false) (ho : Opened env w w₁) (k : Pubkey) :
    (∃ l : List (Pubkey →₀ ℕ), Transition.Steps Market.Step (w.market env)
      (l.map fun lock => ⟨k, .start lock⟩) (w₁.market env)) ∧
      w₁.state.frozen = false ∧ w₁.state.sellPaused = false := by
  rcases ho with ⟨-, rfl⟩ | ⟨hidle, hb⟩
  · exact ⟨⟨[], .nil _⟩, hfrozen, hpaused⟩
  · obtain ⟨lock, hstep⟩ := hb.market h hidle hfrozen hpaused k
    obtain ⟨_, _, _, -, rfl⟩ := hb
    exact ⟨⟨[lock], .single hstep⟩, hfrozen, hpaused⟩

/-- The round that is begun when the last one is settled, if one is. -/
lemma AutoStarted.matched (h : Inv env w) (hidle : w.state.roundStarted = false)
    (hfrozen : w.state.frozen = false) (hpaused : w.state.sellPaused = false)
    (ha : AutoStarted env w w') (k : Pubkey) :
    ∃ l : List (Pubkey →₀ ℕ), Transition.Steps Market.Step (w.market env)
      (l.map fun lock => ⟨k, .start lock⟩) (w'.market env) := by
  rcases ha with hb | ⟨rfl, -⟩
  · obtain ⟨lock, hstep⟩ := hb.market h hidle hfrozen hpaused k
    exact ⟨[lock], .single hstep⟩
  · exact ⟨[], .nil _⟩

/-- The events of a sell: a round may be begun, the sale, and what a full round leads to. -/
lemma shows_sell {wm um : Pubkey} {a : UInt64} {n cost : ℕ} {r : Receipt}
    (before after : List (Pubkey →₀ ℕ)) (settle : List ((Pubkey →₀ ℕ) × (Pubkey →₀ ℕ) × ℕ))
    (hn : n ≤ a.toNat) (hin : r.usdcIn = 0) (hout : r.usdcOut = cost) (hwin : r.walnIn = n)
    (hwout : r.walnOut = 0) :
    Shows ⟨w, ⟨ctx, .SellWaln wm um a, r⟩, w'⟩
      ((before.map fun lock => ⟨ctx.signer, .start lock⟩) ++ (⟨ctx.signer, .sell n cost⟩ ::
        ((settle.map fun x => ⟨ctx.signer, .settle x.1 x.2.1 x.2.2⟩) ++
          after.map fun lock => ⟨ctx.signer, .start lock⟩))) := by
  refine ⟨?_, ?_, ?_, ?_, ?_, ?_⟩
  · simp only [List.mem_append, List.mem_cons, List.mem_map]
    rintro x (⟨_, -, rfl⟩ | rfl | ⟨_, -, rfl⟩ | ⟨_, -, rfl⟩) <;> rfl
  · simp only [List.mem_append, List.mem_cons, List.mem_map]
    rintro x (⟨_, -, rfl⟩ | rfl | ⟨_, -, rfl⟩ | ⟨_, -, rfl⟩)
    · trivial
    · exact hn
    · trivial
    · trivial
  · simp [Market.Event.moneyIn, Function.comp_def, hin]
  · simp [Market.Event.moneyOut, Function.comp_def, hout]
  · simp [Market.Event.goodsIn, Function.comp_def, hwin]
  · simp [Market.Event.goodsOut, Function.comp_def, hwout]

lemma sellWaln_matched {wm um : Pubkey} {a : UInt64} {r : Receipt} (h : Reachable env w)
    (hx : sellWaln env ctx wm um a.toNat w = .ok (w', r)) :
    Matched env w ⟨ctx, .SellWaln wm um a, r⟩ w' := by
  obtain ⟨plan, remaining, usdcOut, sold, hsell, hphases⟩ := sellWaln_cases hx
  obtain ⟨hinv, -⟩ := reachable_inv h
  obtain ⟨hfrozen, hpaused⟩ := sellIntoRound_live hsell
  obtain ⟨w₁, hopened, hpaid, -, -, -⟩ := sellIntoRound_ok hinv hsell
  obtain ⟨hinv₂, hstarted, hdecimals, hprice, hsize⟩ := h.sold hsell
  obtain ⟨⟨before, hbefore⟩, hfrozen₁, hpaused₁⟩ :=
    hopened.matched hinv hfrozen hpaused ctx.signer
  have hstep := hpaid.market hfrozen₁ hpaused₁ ctx.signer
  have hn : plan.walnAmount ≤ a.toNat := by
    rw [hpaid.amount]
    exact min_le_left _ _
  have hlive : sold.state.frozen = false ∧ sold.state.sellPaused = false := by
    rw [hpaid.world]
    exact ⟨hfrozen₁, hpaused₁⟩
  rcases hphases with ⟨-, rfl, rfl⟩ | ⟨hfull, settled, allocated, closed, hsettle, hauto, rfl⟩
  · exact ⟨_, shows_sell before [] [] hn rfl rfl rfl rfl, hbefore.append (.single hstep)⟩
  · -- the round is full: it is settled, and the next one may be begun
    rw [hdecimals, hprice] at hsettle
    obtain ⟨dust, hsettled, hpool, -, -⟩ := settleWorld_ok hinv₂ hstarted hsettle
    rw [hdecimals, ← hsettled.decimals_eq] at hauto
    obtain ⟨hinv₃, hidle⟩ := inv_settled hinv₂ hstarted hsettled
    have hcharged : List.Forall₂ Charged sold.pool.investors
        settled.unlockedForRound.pool.investors := by
      show List.Forall₂ Charged sold.pool.investors settled.pool.investors
      rw [hpool]
      exact charged_fullPool _ _
    have hsame : sold.state.currentRoundWaln = sold.state.currentRoundSizeWaln :=
      le_antisymm (hinv₂.round hstarted).waln_le (hsize ▸ hfull)
    obtain ⟨charge, alloc, hcharge⟩ := hsettled.market hinv₂ hstarted hcharged
      (k := ctx.signer) (.inl ⟨hsame, rfl, hlive.1⟩)
    have hlive' : settled.unlockedForRound.state.frozen = false ∧
        settled.unlockedForRound.state.sellPaused = false := by
      rw [hsettled.state]
      exact hlive
    obtain ⟨after, hafter⟩ :=
      (autoStart_ok hauto).matched hinv₃ hidle hlive'.1 hlive'.2 ctx.signer
    exact ⟨_, shows_sell before after [(charge, alloc, dust)] hn rfl rfl rfl rfl,
      hbefore.append (.cons hstep (.cons hcharge hafter))⟩

/-! ## Every transaction -/

lemma acceptAuthority_matched {r : Receipt} (hx : acceptAuthority ctx w = .ok (w', r)) :
    Matched env w ⟨ctx, .AcceptAuthority, r⟩ w' := by
  simp only [acceptAuthority, bind_eq_ok, ensure_eq_ok, pure_eq_ok, Prod.mk.injEq] at hx
  obtain ⟨_, hpending, _, hsigner, rfl, rfl⟩ := hx
  refine matched_single (a := .accept) ?_ trivial rfl rfl rfl rfl
  rw [hsigner]
  refine Market.Step.accept (m := w.market env) ?_
  rw [World.market, ← hsigner]
  exact if_neg hpending

/-- **Every transaction is matched** by what the market sees of it. -/
theorem Reachable.matched {tx : Tx} (h : Reachable env w) (hstep : Step env w tx w') :
    Matched env w tx w' := by
  obtain ⟨ctx, i, r⟩ := tx
  obtain ⟨hinv, hopen⟩ := reachable_inv h
  have hx : exec env ctx i w = .ok (w', r) := hstep
  have heffect := Reachable.effect h hstep
  obtain ⟨hinv', -⟩ := heffect.inv hinv hopen
  cases i with
  | SetFloorPrice p =>
      simp only [exec, setFloorPrice, adminSet_eq_ok] at hx
      obtain ⟨hadmin, -, rfl, rfl⟩ := hx
      exact matched_single (a := .setTerms ⟨p.toNat, w.state.roundSizeWaln⟩)
        (.setTerms hadmin.symm hinv'.viable.cap_pos) rfl rfl rfl rfl rfl
  | SetRoundSize n =>
      simp only [exec, setRoundSize, adminSet_eq_ok] at hx
      obtain ⟨hadmin, -, rfl, rfl⟩ := hx
      exact matched_single (a := .setTerms ⟨w.state.floorPriceUsdc, n.toNat⟩)
        (.setTerms hadmin.symm hinv'.viable.cap_pos) rfl rfl rfl rfl rfl
  | SetLockPeriod t =>
      simp only [exec, setLockPeriod, adminSet_eq_ok] at hx
      obtain ⟨-, -, rfl, rfl⟩ := hx
      exact matched_nil rfl
  | SetUsdcWithdrawLock t =>
      simp only [exec, setUsdcWithdrawLock, adminSet_eq_ok] at hx
      obtain ⟨-, -, rfl, rfl⟩ := hx
      exact matched_nil rfl
  | SetSellPaused b =>
      simp only [exec, setSellPaused, adminSet_eq_ok] at hx
      obtain ⟨hadmin, -, rfl, rfl⟩ := hx
      exact matched_single (a := .pause b) (.pause hadmin.symm) rfl rfl rfl rfl rfl
  | SetFrozen b =>
      simp only [exec, setFrozen, adminSet_eq_ok] at hx
      obtain ⟨hadmin, -, rfl, rfl⟩ := hx
      exact matched_single (a := .freeze b) (.freeze hadmin.symm) rfl rfl rfl rfl rfl
  | TransferAuthority k =>
      simp only [exec, transferAuthority, adminSet_eq_ok] at hx
      obtain ⟨hadmin, -, rfl, rfl⟩ := hx
      exact matched_single (a := .nominate (toNominee k)) (.nominate hadmin.symm) rfl rfl rfl rfl
        rfl
  | AcceptAuthority => exact acceptAuthority_matched hx
  | CancelRound => exact cancelRound_matched hx
  | RemoveInvestorFromPool k m => exact removeInvestorFromPool_matched hinv hx
  | CloseRound => exact closeRound_matched hinv hx
  | DepositUsdc m n a => exact depositUsdc_matched hx
  | WithdrawUsdc m a => exact withdrawUsdc_matched hinv hx
  | SellWaln wm um a => exact sellWaln_matched h hx
  | ClaimWaln m j => exact claimWaln_matched hinv hx
  | SetInvestorUsdcUnlock k ts =>
      cases heffect with
      | Configure hi => cases hi
      | ManageRent hi => cases hi
      | SetUnlock hr =>
          exact matched_nil (market_updateInvestor (f := relockedRecord ts.toInt) (fun _ => rfl)
            (fun _ => rfl) fun _ => rfl)
  | UpdateAatVolume k v =>
      cases heffect with
      | Configure hi => cases hi
      | ManageRent hi => cases hi
      | UpdateVolume hidle hnft hle htotal =>
          exact matched_nil (market_updateInvestor (f := revaluedRecord v.toNat) (fun _ => rfl)
            (fun _ => rfl) fun _ => rfl)
  | MintAatNft k v =>
      cases heffect with
      | Configure hi => cases hi
      | ManageRent hi => cases hi
      | Mint => exact matched_nil rfl
  | _ =>
      cases heffect with
      | Configure hi => cases hi
      | ManageRent => exact matched_nil rfl

lemma opening_of_initial (h : Initial env w) : Market.Opening (w.market env) := by
  obtain ⟨ctx, usdcMint, walnMint, price, size, lock, h⟩ := h
  simp only [initializeHandler, bind_eq_ok, pure_eq_ok] at h
  obtain ⟨_, -, _, -, _, -, _, -, _, -, _, -, rfl⟩ := h
  exact ⟨rfl, rfl, rfl, rfl, rfl, rfl, rfl, rfl, rfl⟩

/-- The program simulates the market. -/
theorem program_simulates_market (env : Env) :
    Transition.Simulates (Initial env) (Step env) Market.Opening Market.Step (World.market env)
      Shows :=
  ⟨fun _ => opening_of_initial, fun _ _ _ hw hstep => Reachable.matched hw hstep⟩

end Floor
