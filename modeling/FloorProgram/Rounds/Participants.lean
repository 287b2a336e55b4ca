import FloorProgram.Settling
import FloorProgram.Starting.Locks
import FloorProgram.Pool.Volumes

/-!
# The participants of a round are frozen

Who takes part in a round is decided when it starts, and is read off the locks when it is settled.
In between investors deposit, withdraw, join and leave.  A deposit rewrites the volume of its
record, and a removal moves the last record to another slot.

`roster` lists the participants with their locks and volumes.  A transaction inside a round permutes
it at most (`Effect.roster_perm`), so `participants_frozen` finds at the end of the round the
participants of its start, and in its record the volume that the start returned.
-/

namespace Floor

open Checked Loop Keyed Search ProRata

variable {env : Env} {w w' : World} {ctx : Context}

/-! ## The roster -/

/-- What a round is settled by: who it is, the lock and the volume. -/
def rosterEntry (r : InvestorRecord) : Pubkey × ℕ × ℕ :=
  (r.investor, r.usdcLockedCurrentRound, r.aatVolume)

/-- The participants of the round in progress. -/
def roster (investors : List InvestorRecord) : List (Pubkey × ℕ × ℕ) :=
  (participants investors).map rosterEntry

/-- The volume of all participants. -/
def participantVolume (investors : List InvestorRecord) : ℕ :=
  ((participants investors).map InvestorRecord.aatVolume).sum

lemma participantVolume_cons (r : InvestorRecord) (l : List InvestorRecord) :
    participantVolume (r :: l)
      = (if r.usdcLockedCurrentRound = 0 then 0 else r.aatVolume) + participantVolume l := by
  split_ifs with h
  · simp [participantVolume, participants_cons_of_zero l h]
  · simp [participantVolume, participants_cons_of_pos l (Nat.pos_of_ne_zero h)]

/-- The roster determines the volume. -/
lemma participantVolume_of_perm {l l' : List InvestorRecord} (h : (roster l).Perm (roster l')) :
    participantVolume l = participantVolume l' := by
  have hvolume : ∀ l : List InvestorRecord,
      participantVolume l = ((roster l).map fun e => e.2.2).sum := by
    intro l
    simp [participantVolume, roster, rosterEntry, Function.comp_def]
  rw [hvolume l, hvolume l']
  exact (h.map _).sum_eq

lemma roster_append (l l' : List InvestorRecord) : roster (l ++ l') = roster l ++ roster l' := by
  simp [roster, participants]

lemma roster_of_zero {r : InvestorRecord} (h : r.usdcLockedCurrentRound = 0) : roster [r] = [] := by
  simp [roster, participants, h]

lemma roster_singleton_congr {r r' : InvestorRecord} (h : rosterEntry r' = rosterEntry r) :
    roster [r'] = roster [r] := by
  have hlock : r'.usdcLockedCurrentRound = r.usdcLockedCurrentRound := congrArg (fun e => e.2.1) h
  by_cases hpos : 0 < r.usdcLockedCurrentRound
  · simp [roster, participants, hlock, hpos, h]
  · simp [roster, participants, hlock, hpos]

/-- Rewriting a record keeps the roster if it keeps the record's entry. -/
lemma roster_modifyFirst {k : Pubkey} {f : InvestorRecord → InvestorRecord} {r : InvestorRecord}
    {l : List InvestorRecord} (hr : lookup byInvestor k l = some r)
    (hf : rosterEntry (f r) = rosterEntry r) :
    roster (modifyFirst byInvestor k f l) = roster l := by
  obtain ⟨pre, post, rfl, hmodify, -⟩ := modifyFirst_split (f := f) hr
  rw [hmodify]
  show roster (pre ++ ([f r] ++ post)) = roster (pre ++ ([r] ++ post))
  simp only [roster_append, roster_singleton_congr hf]

/-- Removing a record without a lock permutes the roster. -/
lemma roster_swapRemove {i : ℕ} {l : List InvestorRecord} (hi : i < l.length)
    (hlock : l[i].usdcLockedCurrentRound = 0) : (roster (swapRemove i l)).Perm (roster l) := by
  have hperm : (roster l).Perm (roster (l[i] :: swapRemove i l)) :=
    ((perm_cons_swapRemove hi).filter _).map _
  rw [← List.singleton_append, roster_append, roster_of_zero hlock, List.nil_append] at hperm
  exact hperm.symm

/-! ## A transaction inside a round -/

lemma Paid.roster_eq {maxWaln walnAmount usdcOut : ℕ}
    (hp : Paid env maxWaln walnAmount usdcOut w w') :
    roster w'.pool.investors = roster w.pool.investors := by
  rw [hp.world]

/-- **A transaction inside a round permutes the roster.**  The round is the same if it is started
before and after and none was settled in between. -/
theorem Effect.roster_perm {i : Instruction} {r : Receipt} (h : Inv env w)
    (hopen : w.state.roundStarted = true → RoundOpen (w.decimals env) w.state)
    (he : Effect env w ctx i w' r) (hstarted : w.state.roundStarted = true)
    (hstarted' : w'.state.roundStarted = true)
    (hcount : w'.state.roundCount = w.state.roundCount) :
    (roster w'.pool.investors).Perm (roster w.pool.investors) := by
  cases he with
  | SetUnlock hr => exact .of_eq (roster_modifyFirst hr rfl)
  | Withdraw hr => exact .of_eq (roster_modifyFirst hr rfl)
  | @Deposit m n a nft record ts hnft hr =>
      -- The NFT has the volume of the record: the deposit writes what is there.
      have hvolume : nft.aatVolume = record.aatVolume := h.aat.volume_eq hr hnft
      refine .of_eq (roster_modifyFirst hr ?_)
      simp only [rosterEntry, creditedRecord, hvolume]
  | Join =>
      refine .of_eq ?_
      rw [roster_append, roster_of_zero rfl, List.append_nil]
  | Remove hi hr hk hlock =>
      subst hr
      exact roster_swapRemove hi hlock
  | Cancel => simp at hstarted'
  | UpdateVolume hidle => simp [hidle] at hstarted
  | Close _ _ hsettled =>
      rw [hsettled.state] at hcount
      simp at hcount
  | Sell hopened hpaid =>
      rcases hopened with ⟨-, rfl⟩ | ⟨hidle, -⟩
      · exact .of_eq hpaid.roster_eq
      · simp [hidle] at hstarted
  | SellFull hopened hpaid _ hsettled _ hnext =>
      have := (settles_of_fill h hopen hopened hpaid hsettled hnext).roundCount
      omega
  | _ => exact .refl _

/-! ## The volume that the start returns, and the volume in the record -/

/-- The participants are the eligible slots. -/
lemma participantVolume_of_startedFrom {cap volume gap : ℕ} {slots : List Slot}
    {investors : List InvestorRecord}
    (h : List.Forall₂ (StartedFrom cap volume gap) slots investors)
    (hzero : ∀ s ∈ slots, s.2.usdcLockedCurrentRound = 0) :
    participantVolume investors = flaggedSum (·.aatVolume) slots := by
  induction h with
  | nil => rfl
  | @cons s r slots investors hs _ ih =>
      rw [participantVolume_cons, flaggedSum_cons, ih fun s hs => hzero s (by simp [hs])]
      congr 1
      have hvolume : r.aatVolume = s.2.aatVolume := by rw [hs.frame]
      cases hflag : s.1 with
      | false => simp [hs.ineligible hflag, hzero s (by simp)]
      | true =>
          obtain ⟨hpos, hlock⟩ := hs.eligible hflag
          have hne : r.usdcLockedCurrentRound ≠ 0 := by omega
          simp [hne, hvolume]

/-- `execute_round_start` returns the volume of the participants it made. -/
lemma executeRoundStart_volume {investors investors' : List InvestorRecord}
    {size price d volume locked : ℕ} (hzero : ∀ r ∈ investors, r.usdcLockedCurrentRound = 0)
    (h : executeRoundStart investors size price d = (investors', .ok (volume, locked))) :
    participantVolume investors' = volume := by
  obtain ⟨slots, rfl, hvol, -, hstarted⟩ := executeRoundStart_startedFrom hzero h
  rw [← hvol]
  exact participantVolume_of_startedFrom hstarted fun s hs => hzero _ (List.mem_map_of_mem hs)

lemma settleRecord_volume {s p : ℕ} {t t' : SettleTotals} {r r' : InvestorRecord}
    (h : settleRecord s p t r = .ok (r', t')) :
    t'.totalAatVolumeAtTrigger
      = t.totalAatVolumeAtTrigger + if r.usdcLockedCurrentRound = 0 then 0 else r.aatVolume := by
  rw [settleRecord] at h
  split_ifs at h ⊢ with hlock
  · simp only [Except.ok.injEq, Prod.mk.injEq] at h
    rw [← h.2, Nat.add_zero]
  · simp only [bind_eq_ok, arith_eq_ok, checkedAdd_eq_some, pure_eq_ok, Prod.mk.injEq] at h
    obtain ⟨_, -, _, ⟨-, rfl⟩, _, -, _, -, _, -, _, -, _, -, -, rfl⟩ := h
    rfl

lemma closeRecord_volume {c : CloseTerms} {t t' : CloseTotals} {r r' : InvestorRecord}
    (h : closeRecord c t r = .ok (r', t')) :
    t'.totalAatVolumeAtTrigger
      = t.totalAatVolumeAtTrigger + if r.usdcLockedCurrentRound = 0 then 0 else r.aatVolume := by
  split_ifs with hlock
  · simp only [closeRecord, hlock, if_true, Except.ok.injEq, Prod.mk.injEq] at h
    rw [← h.2, Nat.add_zero]
  · obtain ⟨-, -, rfl⟩ := (closeRecord_eq_ok (Nat.pos_of_ne_zero hlock)).mp h
    rfl

/-- A loop whose body adds up the volumes of the participants. -/
lemma forMut_volume {σ : Type} {total : σ → ℕ}
    {body : σ → InvestorRecord → Except TxError (InvestorRecord × σ)}
    (hbody : ∀ t t' r r', body t r = .ok (r', t') →
      total t' = total t + if r.usdcLockedCurrentRound = 0 then 0 else r.aatVolume)
    {l l' : List InvestorRecord} {t t' : σ} (h : forMut body t l = (l', .ok t')) :
    total t' = total t + participantVolume l := by
  induction l generalizing l' t with
  | nil =>
      simp only [forMut_nil, Prod.mk.injEq, Except.ok.injEq] at h
      rw [h.2]
      rfl
  | cons r l ih =>
      obtain ⟨r', t₁, l'', hr, hl, -⟩ := forMut_cons_eq_ok h
      rw [ih hl, hbody _ _ _ _ hr, participantVolume_cons]
      omega

/-- The dust award leaves the volume alone. -/
lemma awardDust_volume {now : ℤ} {dust : ℕ} {investors investors' : List InvestorRecord}
    {t t' : SettleTotals} (h : awardDust now dust investors t = .ok (investors', t')) :
    t'.totalAatVolumeAtTrigger = t.totalAatVolumeAtTrigger := by
  rw [awardDust] at h
  split_ifs at h
  · dsimp only at h
    split at h
    · simp at h
    · simp only [bind_eq_ok, pure_eq_ok, Prod.mk.injEq] at h
      obtain ⟨_, -, _, -, _, -, -, rfl⟩ := h
      rfl
  · simp only [Except.ok.injEq, Prod.mk.injEq] at h
    rw [h.2]

lemma settlePool_volume {s p : ℕ} {now : ℤ} {dust : ℕ} {investors investors' : List InvestorRecord}
    {t : SettleTotals} (h : settlePool s p now dust investors = .ok (investors', t)) :
    t.totalAatVolumeAtTrigger = participantVolume investors := by
  simp only [settlePool, bind_eq_ok, Prod.exists, committed_eq_ok] at h
  obtain ⟨charged, t₁, ⟨hl, ht⟩, haward⟩ := h
  have hsum := forMut_volume (fun _ _ _ _ => settleRecord_volume) (Prod.ext hl ht)
  rw [awardDust_volume haward, hsum]
  exact Nat.zero_add _

lemma closePool_volume {s p walnInRound paid : ℕ} {investors investors' : List InvestorRecord}
    {t : CloseTotals} (h : closePool s p walnInRound paid investors = .ok (investors', t)) :
    t.totalAatVolumeAtTrigger = participantVolume investors := by
  obtain ⟨-, -, -, hloop, -⟩ := closePool_eq_ok h
  rw [forMut_volume (fun _ _ _ _ => closeRecord_volume) hloop]
  exact Nat.zero_add _

/-- The settlement of the round in progress leaves a record with this volume. -/
def RecordsVolume (w w' : World) (volume : ℕ) : Prop :=
  ∃ account, w'.roundRecords = w.roundRecords ++ [account] ∧
    account.data.roundIndex = w.state.roundCount ∧
    account.data.totalAatVolumeAtTrigger = volume

lemma settleWorld_volume {d p : ℕ} {remaining : List AccountInfo}
    {allocated : List InvestorAllocated} {closed : RoundClosed}
    (h : settleWorld env ctx d p remaining w = .ok (w', allocated, closed)) :
    RecordsVolume w w' (participantVolume w.pool.investors) := by
  unfold settleWorld at h
  split at h
  · simp only [bind_eq_ok, Prod.exists, pure_eq_ok, Prod.mk.injEq] at h
    obtain ⟨_, -, _, -, _, -, _, -, _, t, hpool, _, _, -, _, -, _, _, hrecords, _, -, _, -, _, -,
      rfl, -⟩ := h
    obtain ⟨lamports, rfl⟩ := writeRoundRecord_ok hrecords
    exact ⟨_, rfl, rfl, settlePool_volume hpool⟩
  · simp at h

/-- The next round's start leaves the records alone. -/
lemma settleFullRound_volume {d p : ℕ} {remaining : List AccountInfo}
    {allocated : List InvestorAllocated} {closed : RoundClosed}
    (h : settleFullRound env ctx d p remaining w = .ok (w', allocated, closed)) :
    RecordsVolume w w' (participantVolume w.pool.investors) := by
  simp only [settleFullRound, bind_eq_ok, Prod.exists, pure_eq_ok, Prod.mk.injEq] at h
  obtain ⟨settled, _, _, hsettle, next, hauto, rfl, -, -⟩ := h
  obtain ⟨account, hrecords, hindex, hvolume⟩ := settleWorld_volume hsettle
  refine ⟨account, ?_, hindex, hvolume⟩
  rw [← hrecords]
  rw [autoStart] at hauto
  split at hauto
  · obtain rfl := Except.ok.inj hauto
    rfl
  · split_ifs at hauto
    obtain rfl := Except.ok.inj hauto
    rfl

lemma closeRound_volume {r : Receipt} (h : closeRound env ctx w = .ok (w', r)) :
    RecordsVolume w w' (participantVolume w.pool.investors) := by
  simp only [closeRound, bind_eq_ok] at h
  obtain ⟨_, -, _, -, _, -, h⟩ := h
  split at h
  · simp only [bind_eq_ok, Prod.exists, pure_eq_ok, Prod.mk.injEq] at h
    obtain ⟨_, -, _, -, _, -, _, -, _, t, hpool, _, _, -, _, _, hrecords, _, -, _, -, _, -, _, -,
      rfl, -⟩ := h
    obtain ⟨lamports, rfl⟩ := writeRoundRecord_ok hrecords
    exact ⟨_, rfl, rfl, closePool_volume hpool⟩
  · simp at h

/-! ## The life of a round -/

/-- **The life of a round** whose start left the pool at `investors` and returned `volume`.  It
begins inside a sell, or with the automatic start after a settlement, and lasts as long as there is
a round in progress and none is settled.  The world that a sell has got to before it settles the
round belongs to it. -/
inductive RoundLife (env : Env) (investors : List InvestorRecord) (volume : ℕ) : World → Prop
  | inSell {w sold : World} {ctx : Context} {wm um : Pubkey} {maxWaln usdcOut locked : ℕ}
      {plan : SalePlan} {remaining : List AccountInfo} (hw : Reachable env w)
      (hidle : w.state.roundStarted = false)
      (hsell : sellIntoRound env ctx wm um maxWaln w = .ok (plan, remaining, usdcOut, sold))
      (hstart : executeRoundStart w.pool.investors plan.roundSizeWaln plan.floorPriceUsdc
        (env.mint wm).decimals.toNat = (investors, .ok (volume, locked))) :
      RoundLife env investors volume sold
  | autoStarted {w sold settled next : World} {ctx : Context} {wm um : Pubkey}
      {maxWaln usdcOut locked : ℕ} {plan : SalePlan} {remaining : List AccountInfo}
      {allocated : List InvestorAllocated} {closed : RoundClosed} (hw : Reachable env w)
      (hsell : sellIntoRound env ctx wm um maxWaln w = .ok (plan, remaining, usdcOut, sold))
      (hfull : plan.roundSizeWaln ≤ sold.state.currentRoundWaln)
      (hsettle : settleWorld env ctx (env.mint wm).decimals.toNat plan.floorPriceUsdc remaining sold
        = .ok (settled, allocated, closed))
      (hstart : executeRoundStart settled.pool.investors settled.state.roundSizeWaln
        settled.state.floorPriceUsdc (env.mint wm).decimals.toNat
          = (investors, .ok (volume, locked)))
      (hnext : autoStart (env.mint wm).decimals.toNat settled = .ok next) :
      RoundLife env investors volume next
  | step {w w' : World} {tx : Tx} (h : RoundLife env investors volume w) (hw : Reachable env w)
      (hstep : Step env w tx w') (hstarted : w'.state.roundStarted = true)
      (hcount : w'.state.roundCount = w.state.roundCount) : RoundLife env investors volume w'
  | sold {w sold : World} {ctx : Context} {wm um : Pubkey} {maxWaln usdcOut : ℕ} {plan : SalePlan}
      {remaining : List AccountInfo} (h : RoundLife env investors volume w) (hw : Reachable env w)
      (hsell : sellIntoRound env ctx wm um maxWaln w = .ok (plan, remaining, usdcOut, sold)) :
      RoundLife env investors volume sold

section Life

variable {investors : List InvestorRecord} {volume : ℕ}

/-- A sell that starts the round leaves the pool that `execute_round_start` returned. -/
lemma sellIntoRound_started {wm um : Pubkey} {maxWaln usdcOut : ℕ} {plan : SalePlan}
    {remaining : List AccountInfo} {sold : World} (h : Inv env w)
    (hidle : w.state.roundStarted = false)
    (hsell : sellIntoRound env ctx wm um maxWaln w = .ok (plan, remaining, usdcOut, sold)) :
    ∃ volume locked, executeRoundStart w.pool.investors plan.roundSizeWaln plan.floorPriceUsdc
      (env.mint wm).decimals.toNat = (sold.pool.investors, .ok (volume, locked)) := by
  obtain ⟨w₁, hopened, hpaid, hdecimals, hprice, hsize⟩ := sellIntoRound_ok h hsell
  rcases hopened with ⟨hstarted, -⟩ | ⟨-, investors, volume, locked, hstart, rfl⟩
  · simp [hidle] at hstarted
  · refine ⟨volume, locked, ?_⟩
    rw [hdecimals, hprice, hsize, hpaid.world]
    exact hstart

/-- The automatic start leaves the pool that `execute_round_start` returned. -/
lemma autoStart_started {d locked : ℕ} {settled next : World}
    (hstart : executeRoundStart settled.pool.investors settled.state.roundSizeWaln
      settled.state.floorPriceUsdc d = (investors, .ok (volume, locked)))
    (hnext : autoStart d settled = .ok next) :
    next.pool.investors = investors ∧ next.state.roundStarted = true := by
  simp only [autoStart, hstart, Except.ok.injEq] at hnext
  rw [← hnext]
  exact ⟨rfl, rfl⟩

/-- A round in progress has started. -/
lemma RoundLife.started (h : RoundLife env investors volume w) : w.state.roundStarted = true := by
  cases h with
  | inSell hw _ hsell => exact (hw.sold hsell).2.1
  | autoStarted _ _ _ _ hstart hnext => exact (autoStart_started hstart hnext).2
  | step _ _ _ hstarted => exact hstarted
  | sold _ hw hsell => exact (hw.sold hsell).2.1

/-- The start of the round returned the volume of its participants. -/
lemma RoundLife.volume_eq (h : RoundLife env investors volume w) :
    participantVolume investors = volume := by
  induction h with
  | inSell hw hidle _ hstart =>
      have hzero := ((reachable_inv hw).1.lobby.idle hidle).1
      exact executeRoundStart_volume (lockedUsdc_eq_zero.mp hzero) hstart
  | autoStarted hw hsell _ hsettle hstart _ =>
      obtain ⟨-, -, hinv, hidle⟩ := hw.settled hsell hsettle
      have hzero := (hinv.lobby.idle hidle).1
      exact executeRoundStart_volume (lockedUsdc_eq_zero.mp hzero) hstart
  | step _ _ _ _ _ ih => exact ih
  | sold _ _ _ ih => exact ih

/-- The participants of a round are those of its start. -/
lemma RoundLife.roster_perm (h : RoundLife env investors volume w) :
    (roster w.pool.investors).Perm (roster investors) := by
  induction h with
  | inSell hw hidle hsell hstart =>
      obtain ⟨_, _, hstart'⟩ := sellIntoRound_started (reachable_inv hw).1 hidle hsell
      rw [hstart, Prod.mk.injEq] at hstart'
      rw [hstart'.1]
  | autoStarted _ _ _ _ hstart hnext => rw [(autoStart_started hstart hnext).1]
  | step h hw hstep hstarted hcount ih =>
      obtain ⟨hinv, hopen⟩ := reachable_inv hw
      exact ((hw.effect hstep).roster_perm hinv hopen h.started hstarted hcount).trans ih
  | sold h hw hsell ih =>
      obtain ⟨w₁, hopened, hpaid, -⟩ := sellIntoRound_ok (reachable_inv hw).1 hsell
      rcases hopened with ⟨-, rfl⟩ | ⟨hidle, -⟩
      · exact (List.Perm.of_eq hpaid.roster_eq).trans ih
      · simp [h.started] at hidle

end Life

/-! ## Every round in progress has a life -/

/-- Only a sell leaves another round in progress than it found. -/
lemma Effect.same_round_or_sell {i : Instruction} {r : Receipt} (he : Effect env w ctx i w' r)
    (hstarted' : w'.state.roundStarted = true) :
    (w.state.roundStarted = true ∧ w'.state.roundCount = w.state.roundCount) ∨
      ∃ wm um maxWaln, i = .SellWaln wm um maxWaln := by
  cases he with
  | Cancel => simp at hstarted'
  | Close _ _ hsettled =>
      rw [hsettled.state] at hstarted'
      simp at hstarted'
  | Sell => exact .inr ⟨_, _, _, rfl⟩
  | SellFull => exact .inr ⟨_, _, _, rfl⟩
  | _ => exact .inl ⟨hstarted', rfl⟩

/-- An automatic start that leaves a round in progress has started one. -/
lemma autoStart_of_started {d : ℕ} {settled next : World}
    (hidle : settled.state.roundStarted = false) (hnext : autoStart d settled = .ok next)
    (hstarted : next.state.roundStarted = true) :
    ∃ investors volume locked, executeRoundStart settled.pool.investors settled.state.roundSizeWaln
      settled.state.floorPriceUsdc d = (investors, .ok (volume, locked)) := by
  rw [autoStart] at hnext
  split at hnext
  · rename_i investors volume locked hstart
    exact ⟨investors, volume, locked, hstart⟩
  · split_ifs at hnext
    obtain rfl := Except.ok.inj hnext
    simp [hidle] at hstarted

/-- **A reachable world with a round in progress is in the life of that round.** -/
theorem Reachable.roundLife (h : Reachable env w) (hstarted : w.state.roundStarted = true) :
    ∃ investors volume, RoundLife env investors volume w := by
  induction h with
  | start hinit =>
      have hidle := (inv_initial hinit).2
      simp [hstarted] at hidle
  | @step w w' tx hw hstep ih =>
      obtain ⟨ctx, i, r⟩ := tx
      rcases (Reachable.effect hw hstep).same_round_or_sell hstarted with
        ⟨hbefore, hcount⟩ | ⟨wm, um, maxWaln, rfl⟩
      · obtain ⟨investors, volume, hlife⟩ := ih hbefore
        exact ⟨investors, volume, hlife.step hw hstep hstarted hcount⟩
      have hsellWaln : sellWaln env ctx wm um maxWaln.toNat w = .ok (w', r) := hstep
      obtain ⟨plan, remaining, usdcOut, sold, hsell, hphases⟩ := sellWaln_cases hsellWaln
      rcases hphases with ⟨-, rfl, -⟩ | ⟨hfull, settled, _, _, hsettle, hnext, -⟩
      · cases hbefore : w.state.roundStarted with
        | true =>
            obtain ⟨investors, volume, hlife⟩ := ih hbefore
            exact ⟨investors, volume, hlife.sold hw hsell⟩
        | false =>
            obtain ⟨volume, locked, hstart⟩ :=
              sellIntoRound_started (reachable_inv hw).1 hbefore hsell
            exact ⟨_, volume, .inSell hw hbefore hsell hstart⟩
      · obtain ⟨-, -, -, hidle⟩ := Reachable.settled hw hsell hsettle
        obtain ⟨investors, volume, locked, hstart⟩ := autoStart_of_started hidle hnext hstarted
        exact ⟨investors, volume, .autoStarted hw hsell hfull hsettle hstart hnext⟩

/-- **The participants of a round are frozen.**  All through the life of a round the investors with
a lock, their locks and their volumes are those that the start of the round left, in some order.  So
the record that the settlement writes, of a full round or by a forced close, has the volume that
`execute_round_start` returned for the round. -/
theorem participants_frozen {investors : List InvestorRecord} {volume : ℕ}
    (h : RoundLife env investors volume w) :
    (roster w.pool.investors).Perm (roster investors) ∧
    (∀ ctx d p remaining next allocated closed,
      settleFullRound env ctx d p remaining w = .ok (next, allocated, closed) →
        RecordsVolume w next volume) ∧
    (∀ ctx w' r, closeRound env ctx w = .ok (w', r) → RecordsVolume w w' volume) := by
  have hvolume : participantVolume w.pool.investors = volume :=
    (participantVolume_of_perm h.roster_perm).trans h.volume_eq
  refine ⟨h.roster_perm, ?_, ?_⟩
  · intro ctx d p remaining next allocated closed hsettle
    exact hvolume ▸ settleFullRound_volume hsettle
  · intro ctx w' r hclose
    exact hvolume ▸ closeRound_volume hclose

/-- Two investors take part.  During the round the first deposits again, a third one, whose slot was
in front of theirs, is removed, and a fourth one joins. -/
def crowdedRound : List (Context × Instruction) :=
  [(signedBy 1 1 [], .FundTreasury 1000000000),
   (signedBy 1 1 [], .MintAatNft 23 30),
   (signedBy 1 1 [], .MintAatNft 21 10),
   (signedBy 1 1 [], .MintAatNft 22 20),
   (signedBy 23 1 [], .DepositUsdc 10 (.AatNft 23) 20),
   (signedBy 21 1 [], .DepositUsdc 10 (.AatNft 21) 20),
   (signedBy 22 1 [], .DepositUsdc 10 (.AatNft 22) 20),
   (signedBy 1 1 [], .UpdateAatVolume 23 0),
   sell 0 2000000000,
   (signedBy 21 1 [], .DepositUsdc 10 (.AatNft 21) 7),
   (signedBy 1 1 [], .RemoveInvestorFromPool 23 10),
   (signedBy 1 1 [], .MintAatNft 24 40),
   (signedBy 24 1 [], .DepositUsdc 10 (.AatNft 24) 20)]

/-- After `crowdedRound` the two are still the participants, in the other order, and a forced close
records their volumes. -/
theorem participants_frozen_crowdedRound :
    ∃ w investors volume w' r, RoundLife (sampleEnv 9) investors volume w ∧
      roster w.pool.investors = [(22, 10, 20), (21, 5, 10)] ∧
      (roster investors).Perm [(21, 5, 10), (22, 10, 20)] ∧
      closeRound (sampleEnv 9) (signedBy 1 1 (roundAccounts 0)) w = .ok (w', r) ∧
      RecordsVolume w w' volume ∧ volume = 30 := by
  obtain ⟨w₀, hist, w, hinit, hrun, hw⟩ := exists_sample_history 9 3 5000000000 crowdedRound
    (fun _ _ w => w.state.roundStarted = true ∧
      roster w.pool.investors = [(22, 10, 20), (21, 5, 10)] ∧
      (closeRound (sampleEnv 9) (signedBy 1 1 (roundAccounts 0)) w).toOption.map
        (fun x => x.1.roundRecords.map fun a => a.data.totalAatVolumeAtTrigger) = some [30])
    (by decide +kernel)
  simp only [decide_eq_true_eq] at hw
  obtain ⟨hstarted, hroster, hclosed⟩ := hw
  obtain ⟨investors, volume, hlife⟩ := Reachable.roundLife (hrun.reachable hinit) hstarted
  obtain ⟨hperm, -, hrecord⟩ := participants_frozen hlife
  rw [hroster] at hperm
  cases hclose : closeRound (sampleEnv 9) (signedBy 1 1 (roundAccounts 0)) w with
  | error e => simp [hclose, Except.toOption] at hclosed
  | ok x =>
      obtain ⟨w', r⟩ := x
      simp only [hclose, Except.toOption, Option.map_some, Option.some.injEq] at hclosed
      have hvolume := hrecord _ _ _ hclose
      refine ⟨w, investors, volume, w', r, hlife, hroster,
        hperm.symm.trans (List.Perm.swap _ _ _), hclose, hvolume, ?_⟩
      obtain ⟨account, haccounts, -, rfl⟩ := hvolume
      have hmem : account.data.totalAatVolumeAtTrigger ∈ [30] := by
        rw [← hclosed, haccounts]
        simp
      simpa using hmem

end Floor
