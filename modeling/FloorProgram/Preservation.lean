import FloorProgram.Effects

/-!
# Every effect keeps the invariant

One lemma per phase of a round and one per remaining case of `Effect`.  They are about the
accounting alone: the code of the instructions does not occur.
-/

namespace Floor

open Checked Loop Keyed Search ProRata

variable {env : Env} {w w' : World}

/-! ## Transporting the parts -/

section Parts

variable {d total : ℕ} {s s' : ProgramState} {investors investors' : List InvestorRecord}
  {nfts : List AatNft}

/-- The live parameters are four fields of the state. -/
lemma Viable.of_eq (h : Viable d s) (hdecimals : s'.walnDecimals = s.walnDecimals)
    (hprice : s'.floorPriceUsdc = s.floorPriceUsdc) (hsize : s'.roundSizeWaln = s.roundSizeWaln)
    (hlock : s'.lockPeriodSeconds = s.lockPeriodSeconds) : Viable d s' :=
  ⟨hdecimals ▸ h.decimals, h.scale, hprice ▸ h.price_pos, hprice ▸ h.price_lt, hsize ▸ h.size_min,
    hsize ▸ h.size_lt, hsize ▸ hprice ▸ h.cap_pos, hlock ▸ h.lock_nonneg, hlock ▸ h.lock_lt⟩

/-- A running round only looks at the locks of the pool. -/
lemma RoundInv.of_locks (h : RoundInv d s investors)
    (hsum : lockedUsdc investors' = lockedUsdc investors)
    (hlocks : ∀ r' ∈ investors', 0 < r'.usdcLockedCurrentRound →
      ∃ r ∈ investors, r.usdcLockedCurrentRound = r'.usdcLockedCurrentRound) :
    RoundInv d s investors' :=
  { h with
    locked_pos := hsum ▸ h.locked_pos
    locked_le := hsum ▸ h.locked_le
    fair := by
      intro r' hr' hpos
      obtain ⟨r, hr, heq⟩ := hlocks r' hr' hpos
      rw [← heq] at hpos ⊢
      exact h.fair r hr hpos }

/-- An update that keeps the locks does not concern the round. -/
lemma RoundInv.modifyFirst (h : RoundInv d s investors) {k : Pubkey}
    {f : InvestorRecord → InvestorRecord}
    (hf : ∀ r, (f r).usdcLockedCurrentRound = r.usdcLockedCurrentRound) :
    RoundInv d s (modifyFirst byInvestor k f investors) := by
  have hmap : (Keyed.modifyFirst byInvestor k f investors).map InvestorRecord.usdcLockedCurrentRound
      = investors.map InvestorRecord.usdcLockedCurrentRound := map_modifyFirst hf
  refine h.of_locks (congrArg List.sum hmap) fun r' hr' _ => ?_
  have hmem := List.mem_map_of_mem (f := InvestorRecord.usdcLockedCurrentRound) hr'
  rw [hmap] at hmem
  exact List.mem_map.mp hmem

lemma lockedUsdc_modifyFirst {k : Pubkey} {f : InvestorRecord → InvestorRecord}
    (hf : ∀ r, (f r).usdcLockedCurrentRound = r.usdcLockedCurrentRound) :
    lockedUsdc (modifyFirst byInvestor k f investors) = lockedUsdc investors :=
  congrArg List.sum (map_modifyFirst hf)

/-- The position of one record changes, and the lobby total with it. -/
lemma poolUsdc_modifyFirst {k : Pubkey} {f : InvestorRecord → InvestorRecord} {r : InvestorRecord}
    (hr : lookup byInvestor k investors = some r) :
    poolUsdc (modifyFirst byInvestor k f investors) + r.position
      = poolUsdc investors + (f r).position :=
  sum_modifyFirst InvestorRecord.position hr

lemma length_modifyFirst {k : Pubkey} {f : InvestorRecord → InvestorRecord} :
    (modifyFirst byInvestor k f investors).length = investors.length := by
  have hmap : (modifyFirst byInvestor k f investors).map (fun _ => ())
      = investors.map fun _ => () :=
    map_modifyFirst fun _ => rfl
  simpa using congrArg List.length hmap

/-- The volumes of the pool only matter per investor. -/
lemma AatInv.of_pool (h : AatInv total nfts investors)
    (hpool : ∀ r' ∈ investors', ∃ r ∈ investors,
      r.investor = r'.investor ∧ r.aatVolume = r'.aatVolume) : AatInv total nfts investors' :=
  { h with
    matched := by
      intro r' hr'
      obtain ⟨r, hr, hk, hv⟩ := hpool r' hr'
      obtain ⟨n, hn, hnk, hnv⟩ := h.matched r hr
      exact ⟨n, hn, hnk.trans hk, hnv.trans hv⟩ }

lemma AatInv.of_forall₂ {R : InvestorRecord → InvestorRecord → Prop}
    (h : AatInv total nfts investors) (hpool : List.Forall₂ R investors investors')
    (hR : ∀ r r', R r r' → r'.investor = r.investor ∧ r'.aatVolume = r.aatVolume) :
    AatInv total nfts investors' := by
  refine h.of_pool fun r' hr' => ?_
  obtain ⟨r, hr, hrr⟩ := exists_of_forall₂_right hpool hr'
  exact ⟨r, hr, (hR r r' hrr).1.symm, (hR r r' hrr).2.symm⟩

lemma nodupKeys_of_forall₂ {R : InvestorRecord → InvestorRecord → Prop}
    (h : NodupKeys byInvestor investors) (hpool : List.Forall₂ R investors investors')
    (hR : ∀ r r', R r r' → r'.investor = r.investor) : NodupKeys byInvestor investors' := by
  rw [NodupKeys, map_eq_of_forall₂ hpool hR]
  exact h

end Parts

/-! ## The phases of a round -/

/-- **Beginning a round** from an idle world. -/
theorem inv_begun (h : Inv env w) (hidle : w.state.roundStarted = false) (hb : Begun env w w') :
    Inv env w' ∧ RoundOpen (w'.decimals env) w'.state := by
  obtain ⟨investors, volume, locked, hstart, rfl⟩ := hb
  obtain ⟨hlocked0, hwaln0, -⟩ := h.lobby.idle hidle
  have hst := executeRoundStart_ok (lockedUsdc_eq_zero.mp hlocked0) hstart
  have husdc : poolUsdc investors = poolUsdc w.pool.investors :=
    congrArg List.sum (map_eq_of_forall₂ hst.moved fun _ _ hm => hm.usdc)
  have hvolume : volume ≤ MAX_TOTAL_AAT_VOLUME :=
    hst.volume_le.trans (h.aat.poolVolume_le h.keys)
  have hv := h.viable
  refine ⟨?_, ?_⟩
  · exact
    { keys := nodupKeys_of_forall₂ h.keys hst.moved fun _ _ hm => hm.investor
      count_le := hst.moved.length_eq ▸ h.count_le
      viable := hv.of_eq rfl rfl rfl rfl
      lobby := ⟨h.lobby.lobby.trans husdc.symm, h.lobby.lobby_lt, hst.locked_eq.symm,
        fun hno => Bool.noConfusion hno⟩
      round := fun _ =>
        { size_min := hv.size_min
          size_lt := hv.size_lt
          price_pos := hv.price_pos
          price_lt := hv.price_lt
          lock_nonneg := hv.lock_nonneg
          lock_lt := hv.lock_lt
          waln_le := by
            show w.state.currentRoundWaln ≤ w.state.roundSizeWaln
            omega
          waln_min := .inl hwaln0
          spent_le := by
            show 0 * _ ≤ _
            omega
          spent_pos := fun hpos => absurd hwaln0 hpos.ne'
          locked_pos := hst.locked_eq ▸ hst.locked_pos
          locked_le := hst.locked_eq ▸ hst.locked_le
          fair := fun r hr hpos =>
            (hst.share_le r hr hpos).trans_le (Nat.mul_le_mul_left _ hvolume) }
      aat := h.aat.of_forall₂ hst.moved fun _ _ hm => ⟨hm.investor, hm.aatVolume⟩
      waln := ⟨h.waln.indices, h.waln.index_lt, h.waln.accounts, h.waln.records_lt, h.waln.vault,
        h.waln.vault_lt⟩ }
  · show w.state.currentRoundWaln < w.state.roundSizeWaln ∧
      0 < (w.state.roundSizeWaln - w.state.currentRoundWaln) * w.state.floorPriceUsdc / _
    have hmin := hv.size_min
    rw [hwaln0, Nat.sub_zero]
    exact ⟨lt_of_lt_of_le (by decide) hmin, hv.cap_pos⟩

/-- A sale stays within the round, and pays out no more than the price of what was sold. -/
lemma RoundInv.sold {maxWaln walnAmount usdcOut : ℕ}
    (h : RoundInv (w.decimals env) w.state w.pool.investors)
    (hp : Paid env maxWaln walnAmount usdcOut w w') :
    RoundInv (w'.decimals env) w'.state w'.pool.investors := by
  have hle := hp.waln_le
  have hmin : walnAmount ≤ w.state.currentRoundSizeWaln - w.state.currentRoundWaln :=
    hp.amount ▸ Nat.min_le_right _ _
  obtain rfl := hp.world
  exact
    { size_min := h.size_min
      size_lt := h.size_lt
      price_pos := h.price_pos
      price_lt := h.price_lt
      lock_nonneg := h.lock_nonneg
      lock_lt := h.lock_lt
      waln_le := by
        show w.state.currentRoundWaln + walnAmount ≤ w.state.currentRoundSizeWaln
        omega
      waln_min := by
        -- the first sell into a round is large, or fills a round that is
        show _ ∨ MIN_SELL_WALN ≤ w.state.currentRoundWaln + walnAmount
        have := h.size_min
        have := h.waln_min
        have := hp.large
        omega
      spent_le := by
        show (w.state.currentRoundUsdcSpent + usdcOut) * 10 ^ w.decimals env
          ≤ (w.state.currentRoundWaln + walnAmount) * w.state.currentRoundFloorPrice
        have hspent := h.spent_le
        have hout := Nat.div_mul_le_self (walnAmount * w.state.currentRoundFloorPrice)
          (10 ^ w.decimals env)
        rw [← hp.out] at hout
        rw [Nat.add_mul, Nat.add_mul]
        exact Nat.add_le_add hspent hout
      spent_pos := fun _ => Nat.add_pos_right _ hp.out_pos
      locked_pos := h.locked_pos
      locked_le := h.locked_le
      fair := h.fair }

/-- A round that a sale leaves unfilled is still open. -/
lemma Paid.roundOpen {maxWaln walnAmount usdcOut : ℕ}
    (hp : Paid env maxWaln walnAmount usdcOut w w')
    (hpart : w'.state.currentRoundWaln < w'.state.currentRoundSizeWaln) :
    RoundOpen (w'.decimals env) w'.state := by
  obtain rfl := hp.world
  have hpart' : w.state.currentRoundWaln + walnAmount < w.state.currentRoundSizeWaln := hpart
  refine ⟨hpart', ?_⟩
  show 0 < (w.state.currentRoundSizeWaln - (w.state.currentRoundWaln + walnAmount))
    * w.state.currentRoundFloorPrice / 10 ^ w.decimals env
  rw [← Nat.sub_sub]
  exact hp.payable.resolve_left (by omega)

/-- **Paying a seller.**  The round may be full afterwards; if it is not, it is still open. -/
theorem inv_paid {maxWaln walnAmount usdcOut : ℕ} (h : Inv env w)
    (hp : Paid env maxWaln walnAmount usdcOut w w') :
    Inv env w' ∧ w'.state.roundStarted = true ∧
      (w'.state.currentRoundWaln < w'.state.currentRoundSizeWaln →
        RoundOpen (w'.decimals env) w'.state) := by
  have hround := (h.round hp.started).sold hp
  have hopen := hp.roundOpen
  have hvault := h.waln.vault
  obtain rfl := hp.world
  refine ⟨?_, hp.started, hopen⟩
  exact
    { keys := h.keys
      count_le := h.count_le
      viable := h.viable.of_eq rfl rfl rfl rfl
      lobby := ⟨h.lobby.lobby, h.lobby.lobby_lt, h.lobby.locked,
        fun hno => absurd (hp.started.symm.trans hno) (by decide)⟩
      round := fun _ => hround
      aat := h.aat
      waln := ⟨h.waln.indices, h.waln.index_lt, h.waln.accounts, h.waln.records_lt, by
        show w.walnVault + walnAmount = lockedWaln w.roundLockedWaln
          + (w.state.currentRoundWaln + walnAmount) + w.state.walnDustCarryover
        omega, hp.waln_lt⟩ }

lemma unclaimed_of_pos {entries : List InvestorAlloc} (h : ∀ a ∈ entries, 0 < a.walnAmount) :
    unclaimed entries = entries.length := by
  rw [unclaimed, List.filter_eq_self.mpr fun a ha => decide_eq_true (h a ha)]

lemma Settlement.length_entries {investors investors' : List InvestorRecord}
    {entries : List InvestorAlloc} {usdc : ℕ} (h : Settlement investors investors' entries usdc) :
    entries.length = (participants investors).length := by
  simpa using h.keys.length_eq

/-- A settlement writes the two accounts of its round, and what they hold was in the round or was
dust. -/
lemma WalnInv.settled {now : ℤ} {entries : List InvestorAlloc} {usdc dust : ℕ} (h : WalnInv w)
    (hcount : 0 < entries.length) (hs : Settled env now entries usdc dust w w') : WalnInv w' := by
  obtain ⟨lamports, haccounts⟩ := hs.account
  obtain ⟨recordLamports, volume, hrecords⟩ := hs.record
  have hwaln := hs.waln
  have hvault := h.vault
  exact
    { indices := by
        rw [haccounts, NodupKeys, List.map_append, List.map_singleton]
        refine List.Nodup.append h.indices (List.nodup_singleton _) ?_
        rw [List.disjoint_singleton]
        intro hmem
        obtain ⟨a, ha, hidx⟩ := List.mem_map.mp hmem
        exact absurd hidx (Nat.ne_of_lt (h.index_lt a ha))
      index_lt := by
        intro a ha
        rw [haccounts, List.mem_append, List.mem_singleton] at ha
        rw [hs.state]
        rcases ha with ha | rfl
        · exact (h.index_lt a ha).trans (Nat.lt_succ_self _)
        · exact Nat.lt_succ_self _
      accounts := by
        intro a ha
        rw [haccounts, List.mem_append, List.mem_singleton] at ha
        rcases ha with ha | rfl
        · exact h.accounts a ha
        · exact ⟨hs.settlement.sorted, (unclaimed_of_pos hs.settlement.positive).symm, hcount⟩
      records_lt := by
        intro a ha
        rw [hrecords, List.mem_append, List.mem_singleton] at ha
        rw [hs.state]
        rcases ha with ha | rfl
        · exact (h.records_lt a ha).trans (Nat.lt_succ_self _)
        · exact Nat.lt_succ_self _
      vault := by
        rw [hs.walnVault, haccounts, hs.state, lockedWaln, List.map_append, List.sum_append]
        simp only [lockedWaln, List.map_cons, List.map_nil, List.sum_singleton] at hvault ⊢
        omega
      vault_lt := hs.walnVault ▸ h.vault_lt }

/-- **Settling a round** leaves an idle world. -/
theorem inv_settled {now : ℤ} {entries : List InvestorAlloc} {usdc dust : ℕ} (h : Inv env w)
    (hstarted : w.state.roundStarted = true) (hs : Settled env now entries usdc dust w w') :
    Inv env w' ∧ w'.state.roundStarted = false := by
  have hround := h.round hstarted
  have hset := hs.settlement
  have hpool := hset.poolUsdc_eq
  have hlobby := h.lobby.lobby
  have hlobby_lt := h.lobby.lobby_lt
  have hdecimals : w'.decimals env = w.decimals env := by rw [World.decimals, hs.state]; rfl
  have hcount : 0 < entries.length := by
    rw [hset.length_entries]
    exact List.length_pos_of_ne_nil hround.participants_ne_nil
  have hidle : w'.state.roundStarted = false := by rw [hs.state]
  refine ⟨?_, hidle⟩
  exact
    { keys := nodupKeys_of_forall₂ h.keys hset.records fun _ _ hr => hr.investor
      count_le := hset.records.length_eq ▸ h.count_le
      viable := by
        rw [hdecimals, hs.state]
        exact h.viable.of_eq rfl rfl rfl rfl
      lobby := by
        have hunlocked := lockedUsdc_eq_zero.mpr hset.unlocked
        rw [hs.state]
        refine ⟨?_, ?_, hunlocked.symm, fun _ => ⟨hunlocked, rfl, rfl⟩⟩
        · show w.state.totalUsdcInLobby - usdc = _
          omega
        · show w.state.totalUsdcInLobby - usdc < _
          omega
      round := fun hyes => absurd (hidle.symm.trans hyes) (by decide)
      aat := by
        rw [hs.state, hs.aatNfts]
        exact h.aat.of_forall₂ hset.records fun _ _ hr => ⟨hr.investor, hr.aatVolume⟩
      waln := h.waln.settled hcount hs }

/-- The next round may be begun after a settlement. -/
lemma inv_autoStarted (h : Inv env w) (hidle : w.state.roundStarted = false)
    (ha : AutoStarted env w w') :
    Inv env w' ∧ (w'.state.roundStarted = true → RoundOpen (w'.decimals env) w'.state) := by
  rcases ha with hb | ⟨rfl, -⟩
  · obtain ⟨hinv, hopen⟩ := inv_begun h hidle hb
    exact ⟨hinv, fun _ => hopen⟩
  · exact ⟨h, fun hyes => absurd (hidle.symm.trans hyes) (by decide)⟩

/-! ## Changes to one record -/

/-- **A record is rewritten** without touching its key or its lock, and the lobby total follows its
position. -/
lemma inv_update {k : Pubkey} {f : InvestorRecord → InvestorRecord} {r : InvestorRecord}
    {lobby usdcVault : ℕ} (h : Inv env w) (hr : lookup byInvestor k w.pool.investors = some r)
    (hkey : ∀ r, (f r).investor = r.investor)
    (hlock : ∀ r, (f r).usdcLockedCurrentRound = r.usdcLockedCurrentRound)
    (hvolume : ∃ n ∈ w.aatNfts, n.investor = k ∧ n.aatVolume = (f r).aatVolume)
    (hlobby : lobby + r.position = w.state.totalUsdcInLobby + (f r).position)
    (hlt : lobby < 2 ^ 64) :
    Inv env { w with
      state := { w.state with totalUsdcInLobby := lobby }
      pool := w.updateInvestor k f
      usdcVault := usdcVault } := by
  have hpool := poolUsdc_modifyFirst (f := f) hr
  have hlocked : lockedUsdc (modifyFirst byInvestor k f w.pool.investors)
      = lockedUsdc w.pool.investors := lockedUsdc_modifyFirst hlock
  have hold := h.lobby.lobby
  exact
    { keys := nodupKeys_modifyFirst hkey h.keys
      count_le := length_modifyFirst.trans_le h.count_le
      viable := h.viable.of_eq rfl rfl rfl rfl
      lobby := by
        refine ⟨?_, hlt, h.lobby.locked.trans hlocked.symm, fun hidle => ?_⟩
        · show lobby = poolUsdc (modifyFirst byInvestor k f w.pool.investors)
          omega
        · obtain ⟨hzero, hrest⟩ := h.lobby.idle hidle
          exact ⟨hlocked.trans hzero, hrest⟩
      round := fun hyes =>
        have hround := (h.round hyes).modifyFirst (k := k) hlock
        { hround with }
      aat :=
        { h.aat with
          matched := by
            intro r' hr'
            rcases mem_modifyFirst hr hr' with hmem | rfl
            · exact h.aat.matched r' hmem
            · obtain ⟨n, hn, hnk, hnv⟩ := hvolume
              exact ⟨n, hn, hnk.trans ((hkey r).trans (lookup_key hr)).symm, hnv⟩ }
      waln := { h.waln with } }

/-- A record whose volume is kept is matched as before. -/
lemma matched_of_lookup {k : Pubkey} {r r' : InvestorRecord} (h : Inv env w)
    (hr : lookup byInvestor k w.pool.investors = some r) (hvolume : r'.aatVolume = r.aatVolume) :
    ∃ n ∈ w.aatNfts, n.investor = k ∧ n.aatVolume = r'.aatVolume := by
  obtain ⟨n, hn, hnk, hnv⟩ := h.aat.matched r (lookup_mem hr)
  exact ⟨n, hn, hnk.trans (lookup_key hr), hnv.trans hvolume.symm⟩

/-- A new investor joins. -/
lemma inv_join {k : Pubkey} {a : ℕ} {ts : ℤ} {nft : AatNft} {usdcVault : ℕ} (h : Inv env w)
    (hnft : lookup nftHolder k w.aatNfts = some nft)
    (hnew : lookup byInvestor k w.pool.investors = none)
    (hcount : w.pool.investors.length < MAX_INVESTORS)
    (hlobby : w.state.totalUsdcInLobby + a < 2 ^ 64) :
    Inv env { w with
      state := { w.state with totalUsdcInLobby := w.state.totalUsdcInLobby + a }
      pool := { investors := w.pool.investors ++
                  [creditedRecord nft.aatVolume a ts (InvestorRecord.empty k)] }
      usdcVault := usdcVault } := by
  have hlocked : lockedUsdc (w.pool.investors ++
      [creditedRecord nft.aatVolume a ts (InvestorRecord.empty k)])
      = lockedUsdc w.pool.investors := by
    simp [lockedUsdc, creditedRecord, InvestorRecord.empty]
  have hold := h.lobby.lobby
  exact
    { keys := by
        rw [NodupKeys, List.map_append, List.map_singleton]
        refine List.Nodup.append h.keys (List.nodup_singleton _) ?_
        rw [List.disjoint_singleton]
        intro hmem
        obtain ⟨r, hr, hk⟩ := List.mem_map.mp hmem
        exact lookup_eq_none.mp hnew r hr hk
      count_le := by
        rw [List.length_append, List.length_singleton]
        exact hcount
      viable := h.viable.of_eq rfl rfl rfl rfl
      lobby := by
        refine ⟨?_, hlobby, h.lobby.locked.trans hlocked.symm, fun hidle => ?_⟩
        · show w.state.totalUsdcInLobby + a = _
          simp only [poolUsdc, List.map_append, List.map_singleton, List.sum_append,
            List.sum_singleton, creditedRecord, InvestorRecord.empty, InvestorRecord.position]
            at hold ⊢
          omega
        · obtain ⟨hzero, hrest⟩ := h.lobby.idle hidle
          exact ⟨hlocked.trans hzero, hrest⟩
      round := fun hyes => by
        have hround := (h.round hyes).of_locks hlocked fun r' hr' hpos => by
          rw [List.mem_append, List.mem_singleton] at hr'
          rcases hr' with hr' | rfl
          · exact ⟨r', hr', rfl⟩
          · exact absurd hpos (by simp [creditedRecord, InvestorRecord.empty])
        exact { hround with }
      aat :=
        { h.aat with
          matched := by
            intro r' hr'
            rw [List.mem_append, List.mem_singleton] at hr'
            rcases hr' with hr' | rfl
            · exact h.aat.matched r' hr'
            · exact ⟨nft, lookup_mem hnft, lookup_key hnft, rfl⟩ }
      waln := { h.waln with } }

/-- An investor without a lock leaves. -/
lemma inv_remove {i : ℕ} {usdcVault : ℕ} (h : Inv env w) (hi : i < w.pool.investors.length)
    (hlock : w.pool.investors[i].usdcLockedCurrentRound = 0) :
    Inv env { w with
      state := { w.state with
        totalUsdcInLobby := w.state.totalUsdcInLobby - w.pool.investors[i].usdcDeposited }
      pool := { investors := swapRemove i w.pool.investors }
      usdcVault := usdcVault } := by
  have hpool : poolUsdc w.pool.investors = w.pool.investors[i].position
      + poolUsdc (swapRemove i w.pool.investors) := sum_swapRemove InvestorRecord.position hi
  have hlocked : lockedUsdc w.pool.investors = w.pool.investors[i].usdcLockedCurrentRound
      + lockedUsdc (swapRemove i w.pool.investors) :=
    sum_swapRemove InvestorRecord.usdcLockedCurrentRound hi
  have hlocked' : lockedUsdc (swapRemove i w.pool.investors) = lockedUsdc w.pool.investors := by
    omega
  have hold := h.lobby.lobby
  have hold_lt := h.lobby.lobby_lt
  rw [InvestorRecord.position, hlock] at hpool
  exact
    { keys := nodupKeys_swapRemove hi h.keys
      count_le := by
        have := (perm_cons_swapRemove hi).length_eq
        have := h.count_le
        simp only [List.length_cons] at *
        omega
      viable := h.viable.of_eq rfl rfl rfl rfl
      lobby := by
        refine ⟨?_, ?_, h.lobby.locked.trans hlocked'.symm, fun hidle => ?_⟩
        · show w.state.totalUsdcInLobby - _ = poolUsdc (swapRemove i w.pool.investors)
          omega
        · show w.state.totalUsdcInLobby - _ < _
          omega
        · obtain ⟨hzero, hrest⟩ := h.lobby.idle hidle
          exact ⟨hlocked'.trans hzero, hrest⟩
      round := fun hyes => by
        have hround := (h.round hyes).of_locks hlocked' fun r' hr' _ =>
          ⟨r', mem_of_mem_swapRemove hi hr', rfl⟩
        exact { hround with }
      aat := h.aat.of_pool fun r' hr' => ⟨r', mem_of_mem_swapRemove hi hr', rfl, rfl⟩
      waln := { h.waln with } }

/-- The locks of an empty round are returned. -/
lemma inv_cancel (h : Inv env w) (hempty : w.state.currentRoundWaln = 0) :
    Inv env { w with
      state := { w.state with
        roundStarted := false
        currentRoundWaln := 0
        currentRoundUsdcSpent := 0
        totalUsdcLockedForRound := 0 }
      pool := { investors := w.pool.investors.map unlockedRecord } } := by
  have hmoved : List.Forall₂ Moved w.pool.investors (w.pool.investors.map unlockedRecord) := by
    rw [List.forall₂_map_right_iff, List.forall₂_same]
    exact fun r _ => moved_unlockedRecord r
  have husdc : poolUsdc (w.pool.investors.map unlockedRecord) = poolUsdc w.pool.investors :=
    congrArg List.sum (map_eq_of_forall₂ hmoved fun _ _ hm => hm.usdc)
  have hzero : lockedUsdc (w.pool.investors.map unlockedRecord) = 0 := by
    refine lockedUsdc_eq_zero.mpr fun r hr => ?_
    obtain ⟨_, -, rfl⟩ := List.mem_map.mp hr
    rfl
  have hvault := h.waln.vault
  exact
    { keys := nodupKeys_of_forall₂ h.keys hmoved fun _ _ hm => hm.investor
      count_le := by simpa using h.count_le
      viable := h.viable.of_eq rfl rfl rfl rfl
      lobby := ⟨h.lobby.lobby.trans husdc.symm, h.lobby.lobby_lt, hzero.symm,
        fun _ => ⟨hzero, rfl, rfl⟩⟩
      round := fun hyes => Bool.noConfusion hyes
      aat := h.aat.of_forall₂ hmoved fun _ _ hm => ⟨hm.investor, hm.aatVolume⟩
      waln :=
        { h.waln with
          vault := by
            show w.walnVault = lockedWaln w.roundLockedWaln + 0 + w.state.walnDustCarryover
            omega } }

/-! ## Claims -/

/-- An entry after its claim. -/
def clearedAlloc (a : InvestorAlloc) : InvestorAlloc := { a with walnAmount := 0 }

/-- A claim clears the entry of the signer and nothing else. -/
lemma claimed_investors {rlw : RoundLockedWaln} {k : Pubkey} {idx n : ℕ} {a : InvestorAlloc}
    (h : LockedInv rlw) (hidx : binarySearch InvestorAlloc.investor k rlw.investors = some idx)
    (ha : rlw.investors[idx]? = some a) :
    a.investor = k ∧ lookup InvestorAlloc.investor k rlw.investors = some a ∧
      (rlw.claimed idx n).investors
        = modifyFirst InvestorAlloc.investor k clearedAlloc rlw.investors := by
  obtain ⟨hi, hk⟩ := binarySearch_sound hidx
  obtain rfl : rlw.investors[idx] = a := by
    rw [List.getElem?_eq_getElem hi] at ha
    exact Option.some.inj ha
  refine ⟨hk, (lookup_eq_some_iff h.sorted.nodupKeys).mpr ⟨List.getElem_mem hi, hk⟩, ?_⟩
  have hset := set_eq_modifyFirst (f := clearedAlloc) h.sorted.nodupKeys ha
  rw [hk] at hset
  rw [← hset, RoundLockedWaln.claimed, List.modify_eq_set_getElem?, ha]
  rfl

lemma unclaimed_cleared {k : Pubkey} {entries : List InvestorAlloc} {a : InvestorAlloc}
    (h : lookup InvestorAlloc.investor k entries = some a) (hpos : 0 < a.walnAmount) :
    unclaimed (modifyFirst InvestorAlloc.investor k clearedAlloc entries) + 1
      = unclaimed entries := by
  obtain ⟨pre, post, rfl, hnew, -⟩ := modifyFirst_split (f := clearedAlloc) h
  rw [hnew]
  simp [unclaimed, clearedAlloc, hpos, Nat.add_assoc]

lemma entriesWaln_cleared {k : Pubkey} {entries : List InvestorAlloc} {a : InvestorAlloc}
    (h : lookup InvestorAlloc.investor k entries = some a) :
    entriesWaln (modifyFirst InvestorAlloc.investor k clearedAlloc entries) + a.walnAmount
      = entriesWaln entries :=
  sum_modifyFirst InvestorAlloc.walnAmount h

/-- Without unclaimed entries nothing is left. -/
lemma entriesWaln_eq_zero {entries : List InvestorAlloc} (h : unclaimed entries = 0) :
    entriesWaln entries = 0 := by
  refine List.sum_eq_zero_iff.mpr fun x hx => ?_
  obtain ⟨a, ha, rfl⟩ := List.mem_map.mp hx
  by_contra hne
  have : a ∈ entries.filter fun a => 0 < a.walnAmount :=
    List.mem_filter.mpr ⟨ha, decide_eq_true (Nat.pos_of_ne_zero hne)⟩
  rw [List.length_eq_zero_iff.mp h] at this
  simp at this

/-- **The accounts after a claim.**  The last claim drops the account, any other rewrites it. -/
lemma storeClaimed_ok {treasury i treasury' : ℕ} {account : Account RoundLockedWaln}
    {rlw : RoundLockedWaln} {accounts accounts' : List (Account RoundLockedWaln)}
    (h : storeClaimed treasury i account rlw accounts = .ok (treasury', accounts')) :
    (rlw.remainingToClaim = 0 ∧ accounts' = accounts.filter fun a => lockedIndex a ≠ i) ∨
    (rlw.remainingToClaim ≠ 0 ∧
      accounts' = modifyFirst lockedIndex i (fun a => { a with data := rlw }) accounts) := by
  rw [storeClaimed] at h
  split_ifs at h with h0
  · simp only [bind_eq_ok, arith_eq_ok, pure_eq_ok, Prod.mk.injEq] at h
    obtain ⟨_, -, rfl, rfl⟩ := h
    exact .inl ⟨h0, rfl⟩
  · simp only [Except.ok.injEq, Prod.mk.injEq] at h
    exact .inr ⟨h0, h.2.symm⟩

/-- The last claim of a round closes its account. -/
lemma WalnInv.closeAccount {i out treasury : ℕ} {account : Account RoundLockedWaln} (h : WalnInv w)
    (haccount : lookup lockedIndex i w.roundLockedWaln = some account)
    (hout : entriesWaln account.data.investors = out) :
    WalnInv { w with
      walnVault := w.walnVault - out
      treasury := treasury
      roundLockedWaln := w.roundLockedWaln.filter fun x => lockedIndex x ≠ i } := by
  have hvault := h.vault
  have hvault_lt := h.vault_lt
  have hfilter := sum_filter_ne (fun x => entriesWaln x.data.investors) h.indices haccount
  exact
    { indices := h.indices.sublist (List.filter_sublist.map lockedIndex)
      index_lt := fun x hx => h.index_lt x (List.mem_of_mem_filter hx)
      accounts := fun x hx => h.accounts x (List.mem_of_mem_filter hx)
      records_lt := h.records_lt
      vault := by
        show w.walnVault - out = lockedWaln _ + w.state.currentRoundWaln + w.state.walnDustCarryover
        simp only [lockedWaln] at hvault hfilter ⊢
        omega
      vault_lt := by
        show w.walnVault - out < _
        omega }

/-- Any other claim rewrites it. -/
lemma WalnInv.rewriteAccount {i out treasury : ℕ} {account : Account RoundLockedWaln}
    {rlw : RoundLockedWaln} (h : WalnInv w)
    (haccount : lookup lockedIndex i w.roundLockedWaln = some account) (hlocked : LockedInv rlw)
    (hindex : rlw.roundIndex = account.data.roundIndex)
    (hout : entriesWaln rlw.investors + out = entriesWaln account.data.investors) :
    WalnInv { w with
      walnVault := w.walnVault - out
      treasury := treasury
      roundLockedWaln :=
        modifyFirst lockedIndex i (fun x => { x with data := rlw }) w.roundLockedWaln } := by
  have hvault := h.vault
  have hvault_lt := h.vault_lt
  have hsum := sum_modifyFirst (f := fun x : Account RoundLockedWaln => { x with data := rlw })
    (fun x => entriesWaln x.data.investors) haccount
  exact
    { indices := by
        rw [NodupKeys, map_modifyFirst_of_lookup haccount hindex]
        exact h.indices
      index_lt := by
        intro x hx
        rcases mem_modifyFirst haccount hx with hx | rfl
        · exact h.index_lt x hx
        · exact hindex ▸ h.index_lt account (lookup_mem haccount)
      accounts := by
        intro x hx
        rcases mem_modifyFirst haccount hx with hx | rfl
        · exact h.accounts x hx
        · exact hlocked
      records_lt := h.records_lt
      vault := by
        show w.walnVault - out = lockedWaln _ + w.state.currentRoundWaln + w.state.walnDustCarryover
        simp only [lockedWaln] at hvault hsum ⊢
        omega
      vault_lt := by
        show w.walnVault - out < _
        omega }

/-- An account with one claim more is well-formed, unless that was the last one. -/
lemma LockedInv.claimed {rlw : RoundLockedWaln} {k : Pubkey} {idx : ℕ} {a : InvestorAlloc}
    (h : LockedInv rlw) (hidx : binarySearch InvestorAlloc.investor k rlw.investors = some idx)
    (ha : rlw.investors[idx]? = some a) (hpos : 0 < a.walnAmount)
    (hmore : rlw.remainingToClaim - 1 ≠ 0) :
    LockedInv (rlw.claimed idx (rlw.remainingToClaim - 1)) := by
  obtain ⟨-, hlookup, hcleared⟩ := claimed_investors (n := rlw.remainingToClaim - 1) h hidx ha
  have hcount := unclaimed_cleared hlookup hpos
  have hremaining := h.remaining
  refine ⟨?_, ?_, Nat.pos_of_ne_zero hmore⟩
  · rw [hcleared]
    exact h.sorted.of_map_key (map_modifyFirst fun _ => rfl)
  · rw [hcleared]
    show rlw.remainingToClaim - 1 = _
    omega

/-- **A claim** pays out what its entry held. -/
lemma inv_claim {i : ℕ} {k : Pubkey} {account : Account RoundLockedWaln} {idx : ℕ}
    {a : InvestorAlloc} {treasury : ℕ} {accounts : List (Account RoundLockedWaln)}
    (h : Inv env w) (haccount : lookup lockedIndex i w.roundLockedWaln = some account)
    (hidx : binarySearch InvestorAlloc.investor k account.data.investors = some idx)
    (ha : account.data.investors[idx]? = some a) (hpos : 0 < a.walnAmount)
    (hstore : storeClaimed w.treasury i account
      (account.data.claimed idx (account.data.remainingToClaim - 1)) w.roundLockedWaln
        = .ok (treasury, accounts)) :
    Inv env { w with
      walnVault := w.walnVault - a.walnAmount
      treasury := treasury
      roundLockedWaln := accounts } := by
  have hlocked := h.waln.accounts account (lookup_mem haccount)
  obtain ⟨-, hlookup, hcleared⟩ := claimed_investors (n := account.data.remainingToClaim - 1)
    hlocked hidx ha
  have hcount := unclaimed_cleared hlookup hpos
  have hsum := entriesWaln_cleared hlookup
  have hrem := hlocked.remaining
  have hwaln : WalnInv { w with
      walnVault := w.walnVault - a.walnAmount
      treasury := treasury
      roundLockedWaln := accounts } := by
    rcases storeClaimed_ok hstore with ⟨h0, rfl⟩ | ⟨hmore, rfl⟩
    · -- the claimed entry was the only one left
      have h0 : account.data.remainingToClaim - 1 = 0 := h0
      have hnone : unclaimed (modifyFirst InvestorAlloc.investor k clearedAlloc
          account.data.investors) = 0 := by omega
      have hzero := entriesWaln_eq_zero hnone
      exact h.waln.closeAccount haccount (by omega)
    · refine h.waln.rewriteAccount haccount (hlocked.claimed hidx ha hpos hmore) rfl ?_
      rw [hcleared]
      exact hsum
  exact
    { keys := h.keys
      count_le := h.count_le
      viable := h.viable
      lobby := h.lobby
      round := h.round
      aat := h.aat
      waln := hwaln }

/-! ## AAT volumes -/

/-- A new NFT. -/
lemma inv_mint {k : Pubkey} {v : ℕ} (h : Inv env w) (hnew : lookup nftHolder k w.aatNfts = none)
    (htotal : w.state.totalAatVolume + v ≤ MAX_TOTAL_AAT_VOLUME) :
    Inv env { w with
      state := { w.state with totalAatVolume := w.state.totalAatVolume + v }
      aatNfts := w.aatNfts ++ [{ investor := k, aatVolume := v, amount := 1 }] } := by
  have hold := h.aat.total
  exact
    { keys := h.keys
      count_le := h.count_le
      viable := h.viable.of_eq rfl rfl rfl rfl
      lobby := { h.lobby with }
      round := fun hyes => { h.round hyes with }
      aat :=
        { holders := by
            rw [NodupKeys, List.map_append, List.map_singleton]
            refine List.Nodup.append h.aat.holders (List.nodup_singleton _) ?_
            rw [List.disjoint_singleton]
            intro hmem
            obtain ⟨n, hn, hk⟩ := List.mem_map.mp hmem
            exact lookup_eq_none.mp hnew n hn hk
          total := by
            show w.state.totalAatVolume + v = _
            simp only [List.map_append, List.map_singleton, List.sum_append, List.sum_singleton]
            omega
          total_le := htotal
          matched := by
            intro r hr
            obtain ⟨n, hn, hnk, hnv⟩ := h.aat.matched r hr
            exact ⟨n, List.mem_append_left _ hn, hnk, hnv⟩ }
      waln := { h.waln with } }

/-- A volume is changed in the NFT, in the pool and in the total. -/
lemma inv_updateVolume {k : Pubkey} {v : ℕ} {nft : AatNft} (h : Inv env w)
    (hidle : w.state.roundStarted = false) (hnft : lookup nftHolder k w.aatNfts = some nft)
    (hle : nft.aatVolume ≤ w.state.totalAatVolume)
    (htotal : w.state.totalAatVolume - nft.aatVolume + v ≤ MAX_TOTAL_AAT_VOLUME) :
    Inv env { w with
      state := { w.state with totalAatVolume := w.state.totalAatVolume - nft.aatVolume + v }
      aatNfts := modifyFirst nftHolder k (fun n => { n with aatVolume := v }) w.aatNfts
      pool := w.updateInvestor k (revaluedRecord v) } := by
  have hold := h.aat.total
  have hsum := sum_modifyFirst (f := fun n : AatNft => { n with aatVolume := v })
    AatNft.aatVolume hnft
  have husdc : poolUsdc (modifyFirst byInvestor k (revaluedRecord v) w.pool.investors)
      = poolUsdc w.pool.investors := congrArg List.sum (map_modifyFirst fun _ => rfl)
  have hlocked : lockedUsdc (modifyFirst byInvestor k (revaluedRecord v) w.pool.investors)
      = lockedUsdc w.pool.investors := lockedUsdc_modifyFirst fun _ => rfl
  exact
    { keys := nodupKeys_modifyFirst (fun _ => rfl) h.keys
      count_le := length_modifyFirst.trans_le h.count_le
      viable := h.viable.of_eq rfl rfl rfl rfl
      lobby := ⟨h.lobby.lobby.trans husdc.symm, h.lobby.lobby_lt, h.lobby.locked.trans hlocked.symm,
        fun hno => ⟨hlocked.trans (h.lobby.idle hno).1, (h.lobby.idle hno).2⟩⟩
      round := fun hyes => absurd (hidle.symm.trans hyes) (by decide)
      aat :=
        { holders := nodupKeys_modifyFirst (fun _ => rfl) h.aat.holders
          total := by
            show w.state.totalAatVolume - nft.aatVolume + v
              = ((modifyFirst nftHolder k (fun n => { n with aatVolume := v }) w.aatNfts).map
                AatNft.aatVolume).sum
            simp only at hsum
            omega
          total_le := htotal
          matched := by
            intro r' hr'
            rw [World.updateInvestor, modifyFirst_eq_map h.keys] at hr'
            rw [modifyFirst_eq_map h.aat.holders]
            obtain ⟨r, hr, rfl⟩ := List.mem_map.mp hr'
            obtain ⟨n, hn, hnk, hnv⟩ := h.aat.matched r hr
            refine ⟨_, List.mem_map_of_mem hn, ?_⟩
            have hiff : nftHolder n = k ↔ byInvestor r = k := by rw [nftHolder, byInvestor, hnk]
            by_cases hk : byInvestor r = k
            · rw [if_pos hk, if_pos (hiff.mpr hk)]
              exact ⟨hnk, rfl⟩
            · rw [if_neg hk, if_neg (hk ∘ hiff.mp)]
              exact ⟨hnk, hnv⟩ }
      waln := { h.waln with } }

/-! ## All effects -/

/-- A sell goes into an open round. -/
lemma inv_opened (h : Inv env w)
    (hopen : w.state.roundStarted = true → RoundOpen (w.decimals env) w.state)
    (ho : Opened env w w') : Inv env w' ∧ RoundOpen (w'.decimals env) w'.state := by
  rcases ho with ⟨hstarted, rfl⟩ | ⟨hidle, hb⟩
  · exact ⟨h, hopen hstarted⟩
  · exact inv_begun h hidle hb

/-- **Every effect keeps the invariant**, and leaves a running round open. -/
theorem Effect.inv {ctx : Context} {i : Instruction} {r : Receipt} (h : Inv env w)
    (hopen : w.state.roundStarted = true → RoundOpen (w.decimals env) w.state)
    (he : Effect env w ctx i w' r) :
    Inv env w' ∧ (w'.state.roundStarted = true → RoundOpen (w'.decimals env) w'.state) := by
  cases he with
  | Configure _ hviable =>
      refine ⟨?_, hopen⟩
      exact ⟨h.keys, h.count_le, hviable.of_eq rfl rfl rfl rfl, { h.lobby with },
        fun hyes => { h.round hyes with }, h.aat, { h.waln with }⟩
  | ManageRent _ hrecords =>
      refine ⟨?_, hopen⟩
      exact ⟨h.keys, h.count_le, h.viable, h.lobby, h.round, h.aat,
        { h.waln with records_lt := fun a ha => h.waln.records_lt a (hrecords.subset ha) }⟩
  | SetUnlock hr =>
      exact ⟨inv_update h hr (fun _ => rfl) (fun _ => rfl) (matched_of_lookup h hr rfl)
        rfl h.lobby.lobby_lt, hopen⟩
  | Deposit hnft hr _ hlobby =>
      refine ⟨inv_update h hr (fun _ => rfl) (fun _ => rfl)
        ⟨_, lookup_mem hnft, lookup_key hnft, rfl⟩ ?_ hlobby, hopen⟩
      simp only [creditedRecord, InvestorRecord.position]
      omega
  | Join hnft hnew hcount _ hlobby => exact ⟨inv_join h hnft hnew hcount hlobby, hopen⟩
  | @Withdraw _ _ amount r hr _ hle _ =>
      have hpos := position_le_poolUsdc (lookup_mem hr)
      have hlobby := h.lobby.lobby
      have hlt := h.lobby.lobby_lt
      refine ⟨inv_update h hr (fun _ => rfl) (fun _ => rfl) (matched_of_lookup h hr rfl) ?_
        (by omega), hopen⟩
      simp only [debitedRecord, InvestorRecord.position] at hpos ⊢
      omega
  | Remove hi hr _ hlock _ =>
      subst hr
      exact ⟨inv_remove h hi hlock, hopen⟩
  | Cancel _ hempty => exact ⟨inv_cancel h hempty, fun hyes => Bool.noConfusion hyes⟩
  | Close hstarted _ hsettled =>
      obtain ⟨hinv, hidle⟩ := inv_settled h hstarted hsettled
      exact ⟨hinv, fun hyes => absurd (hidle.symm.trans hyes) (by decide)⟩
  | Sell ho hp hpart =>
      obtain ⟨hinv, -, hstill⟩ := inv_paid (inv_opened h hopen ho).1 hp
      exact ⟨hinv, fun _ => hstill hpart⟩
  | SellFull ho hp _ hsettled _ hnext =>
      obtain ⟨hinv, hstarted, -⟩ := inv_paid (inv_opened h hopen ho).1 hp
      obtain ⟨hinv, hidle⟩ := inv_settled hinv hstarted hsettled
      exact inv_autoStarted hinv hidle hnext
  | Claim haccount _ hidx ha hpos _ _ hstore =>
      exact ⟨inv_claim h haccount hidx ha hpos hstore, hopen⟩
  | Mint hnew htotal => exact ⟨inv_mint h hnew htotal, hopen⟩
  | UpdateVolume hidle hnft hle htotal =>
      exact ⟨inv_updateVolume h hidle hnft hle htotal,
        fun hyes => absurd (hidle.symm.trans hyes) (by decide)⟩

end Floor
