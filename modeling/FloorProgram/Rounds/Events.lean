import FloorProgram.Rounds.FullRound

/-!
# What the events of a full round say

A sell that fills a round logs one `InvestorAllocated` for every entry, with the USDC the investor
spent.  The figure is not the lock that was charged: it is computed back from the wALN, after that
was rounded down and the carryover of earlier rounds was added to one entry.

`events_truthful_iff` says when it is the lock all the same: nobody's purchase was rounded, apart
from the winner's, and what the winner got on top is worth less than a unit of USDC together with
the rounding it makes up for.
-/

namespace Floor

open Checked Loop Keyed Search ProRata

variable {env : Env} {w w' sold : World} {ctx : Context} {k : Pubkey}

/-! ## The figure in the event -/

/-- The event of an entry. -/
def loggedEvent (scale floorPriceUsdc roundIndex : ℕ) (unlock : ℤ) (a : InvestorAlloc) :
    InvestorAllocated :=
  { roundIndex := roundIndex, investor := a.investor, walnAmount := a.walnAmount,
    usdcSpent := a.walnAmount * floorPriceUsdc / scale, unlock := unlock }

lemma allocatedEvent_ok {scale price i : ℕ} {unlock : ℤ} {a : InvestorAlloc}
    {e : InvestorAllocated} (h : allocatedEvent scale price i unlock a = .ok e) :
    e = loggedEvent scale price i unlock a := by
  simp only [allocatedEvent, bind_eq_ok, mulDivU64_eq_ok, pure_eq_ok] at h
  obtain ⟨_, ⟨-, -, -, rfl⟩, rfl⟩ := h
  rfl

/-- The figure in the event of a lock is the lock: without a bonus the purchase is not rounded, and
with one the bonus is worth less than a unit of USDC more than the rounding. -/
def LogsExactly (s p lock bonus : ℕ) : Prop :=
  if bonus = 0 then p ∣ lock * s else bonus * p < s + lock * s % p

instance (s p lock bonus : ℕ) : Decidable (LogsExactly s p lock bonus) :=
  inferInstanceAs (Decidable (if bonus = 0 then p ∣ lock * s else bonus * p < s + lock * s % p))

lemma repriced_eq_iff_logsExactly {s p : ℕ} (lock bonus : ℕ) (hs : 0 < s) (hp : 0 < p) :
    (lock * s / p + bonus) * p / s = lock ↔ LogsExactly s p lock bonus := by
  rw [repriced_eq_iff lock bonus hs, LogsExactly]
  split_ifs with hbonus
  · subst hbonus
    rw [Nat.zero_mul, Nat.le_zero, Nat.dvd_iff_mod_eq_zero]
    omega
  · -- the residue is below the price, so one unit of wALN makes up for it
    have hresidue := Nat.mod_lt (lock * s) hp
    have hworth : p ≤ bonus * p := Nat.le_mul_of_pos_left p (by omega)
    omega

/-! ## The round a sell goes into -/

/-- The pool a sell charges: the locks of the running round, or those of the round it starts. -/
def World.roundPool (env : Env) (w : World) : List InvestorRecord :=
  if w.state.roundStarted then w.pool.investors
  else (executeRoundStart w.pool.investors w.state.roundSizeWaln w.state.floorPriceUsdc
    (w.decimals env)).1

lemma Opened.roundPool (ho : Opened env w w') :
    w'.pool.investors = w.roundPool env ∧
      w'.state.currentRoundFloorPrice = w.state.effectivePrice := by
  rcases ho with ⟨hstarted, rfl⟩ | ⟨hidle, investors, volume, locked, hstart, rfl⟩
  · simp [World.roundPool, ProgramState.effectivePrice, hstarted]
  · simp [World.roundPool, ProgramState.effectivePrice, hidle, hstart, ProgramState.snapshot]

lemma Reachable.sold_round {wm um : Pubkey} {maxWaln usdcOut : ℕ} {plan : SalePlan}
    {remaining : List AccountInfo} (h : Reachable env w)
    (hsell : sellIntoRound env ctx wm um maxWaln w = .ok (plan, remaining, usdcOut, sold)) :
    sold.pool.investors = w.roundPool env ∧
      sold.state.currentRoundFloorPrice = w.state.effectivePrice := by
  obtain ⟨w₁, hopened, hpaid, -⟩ := sellIntoRound_ok (reachable_inv h).1 hsell
  rw [hpaid.world]
  exact hopened.roundPool

/-! ## The events of a full round -/

/-- The events of a transaction say what was charged. -/
structure EventsTruthful (w w' : World) (r : Receipt) : Prop where
  charged : ∀ e ∈ r.allocated, committedOf e.investor w'.pool.investors
    = committedOf e.investor w.pool.investors + e.usdcSpent
  closed : ∀ closed ∈ r.roundClosed,
    (r.allocated.map InvestorAllocated.usdcSpent).sum = closed.usdcSpent
  recorded : ∀ record, w'.roundRecords = w.roundRecords ++ [record] →
    (r.allocated.map InvestorAllocated.usdcSpent).sum = record.data.usdcSpent

/-- One event for each participant. -/
lemma allocated_perm {now unlock : ℤ} {allocated : List InvestorAllocated} {i : ℕ}
    (h : Inv env sold) (hstarted : sold.state.roundStarted = true)
    (hevents : (sold.fullEntries env now).mapM (allocatedEvent (10 ^ sold.decimals env)
      sold.state.currentRoundFloorPrice i unlock) = .ok allocated) :
    allocated.Perm ((fullEntries (10 ^ sold.decimals env) sold.state.currentRoundFloorPrice now
      sold.state.walnDustCarryover sold.pool.investors).map
        (loggedEvent (10 ^ sold.decimals env) sold.state.currentRoundFloorPrice i unlock)) := by
  rw [eq_map_of_mapM (fun _ _ => allocatedEvent_ok) hevents]
  exact (fullEntries_perm now h hstarted).map _

/-- What a sell that fills a round logs, charges and records, at scale `s` and price `p`.  The locks
are those of `investors`, and `dust` is handed out. -/
structure LoggedRound (s p : ℕ) (now : ℤ) (dust : ℕ) (investors : List InvestorRecord)
    (w w' : World) (r : Receipt) : Prop where
  scale_pos : 0 < s
  price_pos : 0 < p
  events : ∃ i unlock,
    r.allocated.Perm ((fullEntries s p now dust investors).map (loggedEvent s p i unlock))
  charged : ∀ x ∈ participants investors, committedOf x.investor w'.pool.investors
    = committedOf x.investor w.pool.investors + x.usdcLockedCurrentRound
  closed : ∀ closed ∈ r.roundClosed, closed.usdcSpent = lockedUsdc investors
  recorded : ∀ record, w'.roundRecords = w.roundRecords ++ [record] →
    record.data.usdcSpent = lockedUsdc investors

lemma sellWaln_loggedRound {wm um : Pubkey} {maxWaln : ℕ} {r : Receipt} {closed : RoundClosed}
    (h : Reachable env w) (hx : sellWaln env ctx wm um maxWaln w = .ok (w', r))
    (hclosed : r.roundClosed = some closed) :
    LoggedRound (10 ^ w.decimals env) w.state.effectivePrice ctx.now w.state.walnDustCarryover
      (w.roundPool env) w w' r := by
  obtain ⟨plan, remaining, usdcOut, sold, hsell, hfull⟩ := sellWaln_of_closed hx hclosed
  obtain ⟨hsold, hstarted, -, -, -⟩ := h.sold hsell
  obtain ⟨settled, dust, hs, hpool, hevents, -, closed', hclosed', husdc⟩ :=
    sellWaln_settles h hsell hfull hx
  obtain ⟨l, volume, hrecord⟩ := hs.record
  obtain ⟨hroundPool, hprice⟩ := h.sold_round hsell
  have hdecimals : sold.decimals env = w.decimals env := by
    rw [World.decimals, hs.before.walnMint, World.decimals]
  have hperm := allocated_perm hsold hstarted hevents
  rw [hdecimals, hprice, hs.before.walnDustCarryover] at hperm
  rw [← hroundPool, ← hprice]
  refine
    { scale_pos := Floor.scale_pos _
      price_pos := (hsold.round hstarted).price_pos
      events := ⟨_, _, hprice ▸ hperm⟩
      charged := ?_
      closed := ?_
      recorded := ?_ }
  · intro x hx
    have hlock : lockOf x.investor sold.pool.investors = x.usdcLockedCurrentRound :=
      valueOf_of_mem hsold.keys (mem_participants.mp hx).1 rfl
    rw [hs.committedOf hpool, hlock]
  · intro c hc
    rw [hclosed', Option.mem_some_iff] at hc
    rw [← hc, husdc]
  · intro record hrec
    rw [hrecord, List.append_cancel_left_eq, List.cons.injEq] at hrec
    rw [← hrec.1]

/-- The events are true exactly if every lock is logged exactly. -/
lemma LoggedRound.truthful_iff {s p dust : ℕ} {now : ℤ} {investors : List InvestorRecord}
    {r : Receipt} (hl : LoggedRound s p now dust investors w w' r) :
    EventsTruthful w w' r ↔ ∀ x ∈ participants investors,
      LogsExactly s p x.usdcLockedCurrentRound (bonusOf now dust investors x) := by
  obtain ⟨i, unlock, hperm⟩ := hl.events
  constructor
  · intro ht x hx
    have hevent := ht.charged _ (hperm.mem_iff.mpr (List.mem_map_of_mem (List.mem_map_of_mem hx)))
    have hlog := Nat.add_left_cancel (hevent.symm.trans (hl.charged x hx))
    exact (repriced_eq_iff_logsExactly _ _ hl.scale_pos hl.price_pos).mp hlog
  · intro hexact
    have hlog : ∀ x ∈ participants investors,
        (loggedEvent s p i unlock
          (withDust (bonusOf now dust investors x) (baseEntry s p x))).usdcSpent
          = x.usdcLockedCurrentRound :=
      fun x hx => (repriced_eq_iff_logsExactly _ _ hl.scale_pos hl.price_pos).mpr (hexact x hx)
    have hsum : (r.allocated.map InvestorAllocated.usdcSpent).sum = lockedUsdc investors := by
      rw [(hperm.map _).sum_eq, ← sum_lock_participants, fullEntries, List.map_map, List.map_map]
      exact congrArg List.sum (List.map_congr_left hlog)
    refine ⟨?_, ?_, ?_⟩
    · intro e he
      obtain ⟨a, ha, rfl⟩ := List.mem_map.mp (hperm.mem_iff.mp he)
      obtain ⟨x, hx, rfl⟩ := List.mem_map.mp ha
      rw [hlog x hx]
      exact hl.charged x hx
    · intro c hc
      rw [hsum, hl.closed c hc]
    · intro record hrecord
      rw [hsum, hl.recorded record hrecord]

/-- **The events of a full round.**  They say what was charged exactly if every lock is logged
exactly. -/
theorem events_truthful_iff {wm um : Pubkey} {maxWaln : ℕ} {r : Receipt} {closed : RoundClosed}
    (h : Reachable env w) (hx : sellWaln env ctx wm um maxWaln w = .ok (w', r))
    (hclosed : r.roundClosed = some closed) :
    EventsTruthful w w' r ↔ ∀ x ∈ participants (w.roundPool env),
      LogsExactly (10 ^ w.decimals env) w.state.effectivePrice x.usdcLockedCurrentRound
        (bonusOf ctx.now w.state.walnDustCarryover (w.roundPool env) x) :=
  (sellWaln_loggedRound h hx hclosed).truthful_iff

/-- Six wALN at the price of one: each of three investors pays two units of USDC for two wALN, and
that is what the events say. -/
theorem events_truthful_iff_exact_price :
    ∃ w w' r closed, Reachable (sampleEnv 9) w ∧
      sellWaln (sampleEnv 9) (signedBy 99 1 (roundAccounts 0)) 11 10 6000000000 w = .ok (w', r) ∧
      r.roundClosed = some closed ∧ closed.usdcSpent = 6 ∧
      r.allocated.map InvestorAllocated.usdcSpent = [2, 2, 2] ∧ EventsTruthful w w' r := by
  obtain ⟨w₀, hist, w, hinit, hrun, hw⟩ := exists_sample_history 9 1 6000000000
    (threeInvestors 10 20)
    (fun _ _ w => decide (∀ x ∈ participants (w.roundPool (sampleEnv 9)),
        LogsExactly (10 ^ w.decimals (sampleEnv 9)) w.state.effectivePrice x.usdcLockedCurrentRound
          (bonusOf 1 w.state.walnDustCarryover (w.roundPool (sampleEnv 9)) x)) &&
      isOkAnd (fun x : World × Receipt =>
          decide (x.2.allocated.map InvestorAllocated.usdcSpent = [2, 2, 2] ∧
            x.2.roundClosed.map RoundClosed.usdcSpent = some 6))
        (sellWaln (sampleEnv 9) (signedBy 99 1 (roundAccounts 0)) 11 10 6000000000 w))
    (by decide +kernel)
  simp only [Bool.and_eq_true, decide_eq_true_eq, isOkAnd_eq_true, Prod.exists,
    Option.map_eq_some_iff] at hw
  obtain ⟨hexact, w', r, hx, hlogged, closed, hclosed, husdc⟩ := hw
  have hreach := hrun.reachable hinit
  exact ⟨w, w', r, closed, hreach, hx, hclosed, husdc, hlogged,
    (events_truthful_iff hreach hx hclosed).mpr hexact⟩

/-- Five wALN at the price of three: each of three investors is charged five units of USDC, and the
events say four. -/
theorem events_understate_charges :
    ∃ w w' r closed, Reachable (sampleEnv 9) w ∧
      sellWaln (sampleEnv 9) (signedBy 99 1 (roundAccounts 0)) 11 10 5000000000 w = .ok (w', r) ∧
      r.roundClosed = some closed ∧ closed.usdcSpent = 15 ∧
      (r.allocated.map fun e => (e.investor, e.usdcSpent)) = [(21, 4), (22, 4), (23, 4)] ∧
      committedOf 21 w.pool.investors = 0 ∧ committedOf 21 w'.pool.investors = 5 ∧
      ¬ EventsTruthful w w' r := by
  obtain ⟨w₀, hist, w, hinit, hrun, hw⟩ := exists_sample_history 9 3 5000000000
    (threeInvestors 10 20)
    (fun _ _ w => decide (committedOf 21 w.pool.investors = 0) &&
      isOkAnd (fun x : World × Receipt => decide (committedOf 21 x.1.pool.investors = 5 ∧
          (x.2.allocated.map fun e => (e.investor, e.usdcSpent)) = [(21, 4), (22, 4), (23, 4)] ∧
          x.2.roundClosed.map RoundClosed.usdcSpent = some 15))
        (sellWaln (sampleEnv 9) (signedBy 99 1 (roundAccounts 0)) 11 10 5000000000 w))
    (by decide +kernel)
  simp only [Bool.and_eq_true, decide_eq_true_eq, isOkAnd_eq_true, Prod.exists,
    Option.map_eq_some_iff] at hw
  obtain ⟨hbefore, w', r, hx, hafter, hlogged, closed, hclosed, husdc⟩ := hw
  refine ⟨w, w', r, closed, hrun.reachable hinit, hx, hclosed, husdc, hlogged, hbefore, hafter, ?_⟩
  intro ht
  have hsum := ht.closed closed hclosed
  have hfigures : r.allocated.map InvestorAllocated.usdcSpent = [4, 4, 4] := by
    have hsnd := congrArg (List.map Prod.snd) hlogged
    rwa [List.map_map] at hsnd
  rw [hfigures, husdc] at hsum
  exact absurd hsum (by decide)

end Floor
