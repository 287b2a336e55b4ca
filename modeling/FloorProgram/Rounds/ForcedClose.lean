import FloorProgram.Lemmas.CloseRound

/-!
# What a forced close charges and hands out

`close_round` charges every participant its share of the USDC paid, one unit more for the first ones
with room for it, and hands out the wALN by shares, with all that is left for the last one.

The charges are a function of the pool (`charges`) that does not look at the lifetime counters.
Under the conditions every round meets, the three passes return with exactly these charges, unless a
lifetime counter overflows (`closePool_charges`).  They spend what was paid to the unit and hand out
all wALN (`forced_close_exact`).
-/

namespace Floor

open Checked Loop ProRata

/-! ## The charges -/

/-- What a forced close charges one record, and the wALN it gives for it. -/
structure Charge where
  usdcSpent : ℕ
  walnAlloc : ℕ
  deriving DecidableEq, Repr

/-- The charge of one record, given the totals of the records before it. -/
def chargeOf (c : CloseTerms) (t : CloseTotals) (r : InvestorRecord) : Charge :=
  if r.usdcLockedCurrentRound = 0 then ⟨0, 0⟩ else ⟨closeSpent c t r, closeAmount c t r⟩

/-- The totals after one record. -/
def CloseTotals.step (c : CloseTerms) (t : CloseTotals) (r : InvestorRecord) : CloseTotals :=
  if r.usdcLockedCurrentRound = 0 then t else t.next c r

/-- The charges of the records of a slice. -/
def charges (c : CloseTerms) : CloseTotals → List InvestorRecord → List Charge
  | _, [] => []
  | t, r :: l => chargeOf c t r :: charges c (t.step c r) l

/-- The lifetime counters of a participant take its charge. -/
def LifetimeFits (r : InvestorRecord) (charge : Charge) : Prop :=
  0 < r.usdcLockedCurrentRound →
    r.usdcCommitted + charge.usdcSpent < 2 ^ 64 ∧ r.walnPurchasedTotal + charge.walnAlloc < 2 ^ 64

instance (r : InvestorRecord) (charge : Charge) : Decidable (LifetimeFits r charge) :=
  inferInstanceAs (Decidable (_ → _))

/-- A record without its history: the lifetime counters at zero. -/
def InvestorRecord.withoutHistory (r : InvestorRecord) : InvestorRecord :=
  { r with usdcCommitted := 0, walnPurchasedTotal := 0 }

section Step

variable {c : CloseTerms} {t : CloseTotals} {r : InvestorRecord} {l : List InvestorRecord}

lemma participants_withoutHistory (l : List InvestorRecord) :
    participants (l.map InvestorRecord.withoutHistory)
      = (participants l).map InvestorRecord.withoutHistory := by
  rw [participants, participants, List.filter_map]
  rfl

/-- The history decides only about the lifetime counters. -/
lemma closeFits_iff (h : CloseFits c t r.withoutHistory) :
    CloseFits c t r ↔ r.usdcCommitted + closeSpent c t r < 2 ^ 64 ∧
      r.walnPurchasedTotal + closeAmount c t r < 2 ^ 64 :=
  ⟨fun hfits => ⟨hfits.committed, hfits.purchased⟩, fun hlife =>
    ⟨h.full, h.price, h.amount, h.pro_rata, h.amount_le, h.paid, h.locked, h.spent, h.spent_le,
      h.deposited, hlife.1, hlife.2, h.totalSpent, h.totalWaln, h.totalVolume⟩⟩

lemma closeReady_step (h : CloseReady c ((r :: l).map InvestorRecord.withoutHistory) t) :
    CloseReady c (l.map InvestorRecord.withoutHistory) (t.step c r) := by
  rw [List.map_cons] at h
  rw [CloseTotals.step]
  split_ifs with hlock
  · exact h.skip hlock
  · exact h.next (Nat.pos_of_ne_zero hlock)

/-- One iteration of the writing pass succeeds exactly when the lifetime counters take its
charge. -/
lemma closeRecord_iff (h : CloseReady c ((r :: l).map InvestorRecord.withoutHistory) t)
    {r' : InvestorRecord} {t' : CloseTotals} :
    closeRecord c t r = .ok (r', t') ↔
      LifetimeFits r (chargeOf c t r) ∧
        r' = closedRecord (chargeOf c t r).usdcSpent (chargeOf c t r).walnAlloc r ∧
        t' = t.step c r := by
  rcases Nat.eq_zero_or_pos r.usdcLockedCurrentRound with hlock | hlock
  · have hclosed : closedRecord 0 0 r = r := by
      rw [closedRecord, hlock]
      cases r
      simp_all
    simp only [closeRecord_of_unlocked hlock, LifetimeFits, chargeOf, CloseTotals.step, hlock,
      if_true, hclosed, Except.ok.injEq, Prod.mk.injEq, Nat.lt_irrefl, IsEmpty.forall_iff, true_and]
    exact and_congr eq_comm eq_comm
  · rw [closeRecord_eq_ok hlock, closeFits_iff (h.fits hlock), LifetimeFits, chargeOf,
      CloseTotals.step, if_neg hlock.ne', if_neg hlock.ne', forall_prop_of_true hlock]

lemma closeAllocation_failsOnly (c : CloseTerms) (n remaining locked : ℕ) :
    FailsOnly Overflows (closeAllocation c n remaining locked) := by
  refine failsOnly_bind (failsOnly_mulDiv overflows _ _ _) fun _ _ => ?_
  exact failsOnly_ite (fun _ => failsOnly_arith overflows)
    fun _ => failsOnly_mulDivU64 overflows _ _ _

lemma closeRoundUsdcSpent_failsOnly (paid locked total remainder : ℕ) :
    FailsOnly Overflows (closeRoundUsdcSpent paid locked total remainder) := by
  refine failsOnly_bind (failsOnly_mulDivU64 overflows _ _ _) fun _ _ => ?_
  refine failsOnly_ite (fun _ => ?_) fun _ => failsOnly_ok _
  refine failsOnly_bind (failsOnly_arith overflows) fun _ _ => ?_
  exact failsOnly_bind (failsOnly_arith overflows) fun _ _ => failsOnly_pure _

lemma closeRecord_failsOnly (c : CloseTerms) (t : CloseTotals) (r : InvestorRecord) :
    FailsOnly Overflows (closeRecord c t r) := by
  refine failsOnly_ite (fun _ => failsOnly_ok _) fun _ => ?_
  refine failsOnly_bind (closeAllocation_failsOnly _ _ _ _) fun _ _ => ?_
  refine failsOnly_bind (failsOnly_arith overflows) fun _ _ => ?_
  refine failsOnly_bind (closeRoundUsdcSpent_failsOnly _ _ _ _) fun _ _ => ?_
  refine failsOnly_bind (failsOnly_arith overflows) fun _ _ => ?_
  refine failsOnly_bind (failsOnly_arith overflows) fun _ _ => ?_
  refine failsOnly_bind (failsOnly_arith overflows) fun _ _ => ?_
  refine failsOnly_bind (failsOnly_arith overflows) fun _ _ => ?_
  refine failsOnly_bind (failsOnly_arith overflows) fun _ _ => ?_
  refine failsOnly_bind (failsOnly_arith overflows) fun _ _ => ?_
  exact failsOnly_bind (failsOnly_arith overflows) fun _ _ => failsOnly_pure _

end Step

/-! ## The writing pass -/

section Pass

variable {c : CloseTerms}

/-- The pool after the charges. -/
def chargedPool (l : List InvestorRecord) (cs : List Charge) : List InvestorRecord :=
  List.zipWith (fun r charge => closedRecord charge.usdcSpent charge.walnAlloc r) l cs

/-- The lifetime counters of all participants take their charges. -/
def LifetimesFit (l : List InvestorRecord) (cs : List Charge) : Prop :=
  ∀ x ∈ l.zip cs, LifetimeFits x.1 x.2

instance (l : List InvestorRecord) (cs : List Charge) : Decidable (LifetimesFit l cs) :=
  inferInstanceAs (Decidable (∀ x ∈ l.zip cs, LifetimeFits x.1 x.2))

/-- **The writing pass** succeeds exactly when the lifetime counters take the charges. -/
lemma forMut_closeRecord_iff : ∀ {l l' : List InvestorRecord} {t t' : CloseTotals},
    CloseReady c (l.map InvestorRecord.withoutHistory) t →
    (forMut (closeRecord c) t l = (l', .ok t') ↔
      LifetimesFit l (charges c t l) ∧ l' = chargedPool l (charges c t l) ∧
        t' = l.foldl (CloseTotals.step c) t)
  | [], l', t, t', _ => by
      simp only [forMut_nil, charges, chargedPool, LifetimesFit, Prod.mk.injEq, Except.ok.injEq]
      simp [eq_comm]
  | r :: l, l', t, t', h => by
      constructor
      · intro hloop
        obtain ⟨r₁, t₁, rest, hr, hrest, rfl⟩ := forMut_cons_eq_ok hloop
        obtain ⟨hlife, rfl, rfl⟩ := (closeRecord_iff h).mp hr
        obtain ⟨hlives, rfl, rfl⟩ := (forMut_closeRecord_iff (closeReady_step h)).mp hrest
        refine ⟨?_, rfl, rfl⟩
        rintro x hx
        rcases List.mem_cons.mp hx with rfl | hx
        · exact hlife
        · exact hlives x hx
      · rintro ⟨hlives, rfl, rfl⟩
        have hr := (closeRecord_iff h).mpr ⟨hlives _ (List.mem_cons_self), rfl, rfl⟩
        have hrest := (forMut_closeRecord_iff (closeReady_step h)).mpr
          ⟨fun x hx => hlives x (List.mem_cons_of_mem _ hx), rfl, rfl⟩
        rw [forMut_cons_ok l hr, hrest]
        rfl

/-! ## What the charges come to -/

lemma length_charges : ∀ (l : List InvestorRecord) (t : CloseTotals),
    (charges c t l).length = l.length
  | [], _ => rfl
  | r :: l, t => by rw [charges, List.length_cons, length_charges l, List.length_cons]

/-- The totals of the pass are the sums of the charges. -/
lemma foldl_step_totals : ∀ (l : List InvestorRecord) (t : CloseTotals),
    (l.foldl (CloseTotals.step c) t).totalUsdcSpent
        = t.totalUsdcSpent + ((charges c t l).map Charge.usdcSpent).sum ∧
      (l.foldl (CloseTotals.step c) t).totalWalnPurchased
        = t.totalWalnPurchased + ((charges c t l).map Charge.walnAlloc).sum
  | [], _ => ⟨rfl, rfl⟩
  | r :: l, t => by
      obtain ⟨hspent, hwaln⟩ := foldl_step_totals l (t.step c r)
      rw [List.foldl_cons, hspent, hwaln, charges, List.map_cons, List.map_cons, List.sum_cons,
        List.sum_cons, CloseTotals.step, chargeOf]
      split_ifs
      · simp
      · simp only [CloseTotals.next, Nat.add_assoc, and_self]

/-- The participants that are left are all that are still to be counted. -/
lemma closeReady_count {l : List InvestorRecord} {t : CloseTotals}
    (h : CloseReady c (l.map InvestorRecord.withoutHistory) t) :
    t.processedEligible + (participants l).length = c.sums.eligibleCount := by
  have := h.count
  rwa [participants_withoutHistory, List.length_map] at this

/-- The last participant takes what is left, every other one its share. -/
lemma closeAmount_eq {r : InvestorRecord} {l : List InvestorRecord} {t : CloseTotals}
    (h : CloseReady c ((r :: l).map InvestorRecord.withoutHistory) t)
    (hlock : 0 < r.usdcLockedCurrentRound) :
    closeAmount c t r = if participants l = [] then t.remainingWaln else closeShare c r := by
  have hcount := closeReady_count h
  rw [participants_cons_of_pos l hlock, List.length_cons] at hcount
  rw [closeAmount]
  refine if_congr ?_ rfl rfl
  rw [← List.length_eq_zero_iff]
  omega

lemma sum_walnAlloc_of_participants_eq_nil : ∀ {l : List InvestorRecord} {t : CloseTotals},
    participants l = [] → ((charges c t l).map Charge.walnAlloc).sum = 0
  | [], _, _ => rfl
  | r :: l, t, hnone => by
      have hlock : r.usdcLockedCurrentRound = 0 := by
        by_contra hne
        rw [participants_cons_of_pos l (Nat.pos_of_ne_zero hne)] at hnone
        exact List.cons_ne_nil _ _ hnone
      rw [participants_cons_of_zero l hlock] at hnone
      rw [charges, List.map_cons, List.sum_cons, sum_walnAlloc_of_participants_eq_nil hnone]
      simp [chargeOf, hlock]

/-- **The wALN is handed out to the unit.** -/
lemma sum_walnAlloc : ∀ {l : List InvestorRecord} {t : CloseTotals},
    CloseReady c (l.map InvestorRecord.withoutHistory) t → participants l ≠ [] →
    ((charges c t l).map Charge.walnAlloc).sum = t.remainingWaln
  | [], _, _, hsome => absurd rfl hsome
  | r :: l, t, h, hsome => by
      rw [charges, List.map_cons, List.sum_cons]
      have hstep := closeReady_step h
      rcases Nat.eq_zero_or_pos r.usdcLockedCurrentRound with hlock | hlock
      · rw [participants_cons_of_zero l hlock] at hsome
        rw [sum_walnAlloc hstep hsome]
        simp [chargeOf, CloseTotals.step, hlock]
      · have hle : closeAmount c t r ≤ t.remainingWaln := h.closeAmount_le hlock
        by_cases hlast : participants l = []
        · rw [sum_walnAlloc_of_participants_eq_nil hlast, chargeOf, if_neg hlock.ne']
          dsimp only
          rw [closeAmount_eq h hlock, if_pos hlast, Nat.add_zero]
        · rw [sum_walnAlloc hstep hlast, chargeOf, CloseTotals.step, if_neg hlock.ne',
            if_neg hlock.ne']
          exact Nat.add_sub_cancel' hle

/-- The totals the pass has when it comes to a record, and the charge it makes there. -/
lemma closeReady_append : ∀ {pre post : List InvestorRecord} {t : CloseTotals},
    CloseReady c ((pre ++ post).map InvestorRecord.withoutHistory) t →
    CloseReady c (post.map InvestorRecord.withoutHistory) (pre.foldl (CloseTotals.step c) t)
  | [], _, _, h => h
  | r :: pre, post, t, h => by
      rw [List.cons_append] at h
      rw [List.foldl_cons]
      exact closeReady_append (closeReady_step h)

lemma charges_append : ∀ (pre post : List InvestorRecord) (t : CloseTotals),
    charges c t (pre ++ post)
      = charges c t pre ++ charges c (pre.foldl (CloseTotals.step c) t) post
  | [], _, _ => rfl
  | r :: pre, post, t => by
      rw [List.cons_append, charges, charges_append pre post, charges, List.foldl_cons,
        List.cons_append]

/-- The charge of a record, in the place of the record. -/
lemma charges_getElem? (pre post : List InvestorRecord) (r : InvestorRecord) (t : CloseTotals) :
    (charges c t (pre ++ r :: post))[pre.length]?
      = some (chargeOf c (pre.foldl (CloseTotals.step c) t) r) := by
  have hlen : (charges c t pre).length ≤ pre.length := (length_charges pre t).le
  rw [charges_append, List.getElem?_append_right hlen, length_charges, Nat.sub_self, charges,
    List.getElem?_cons_zero]

/-- Before the last participant the wALN given out is the sum of the shares. -/
lemma remainingWaln_add_shares : ∀ {pre post : List InvestorRecord} {t : CloseTotals},
    CloseReady c ((pre ++ post).map InvestorRecord.withoutHistory) t → participants post ≠ [] →
    (pre.foldl (CloseTotals.step c) t).remainingWaln + ((participants pre).map (closeShare c)).sum
      = t.remainingWaln
  | [], _, _, _, _ => rfl
  | r :: pre, post, t, h, hsome => by
      rw [List.cons_append] at h
      have ih := remainingWaln_add_shares (closeReady_step h) hsome
      rw [List.foldl_cons]
      rcases Nat.eq_zero_or_pos r.usdcLockedCurrentRound with hlock | hlock
      · rw [participants_cons_of_zero pre hlock, ih, CloseTotals.step, if_pos hlock]
      · have hle : closeAmount c t r ≤ t.remainingWaln := h.closeAmount_le hlock
        have hrest : participants (pre ++ post) ≠ [] := by
          rw [participants, List.filter_append]
          exact List.append_ne_nil_of_right_ne_nil _ hsome
        have hshare : closeAmount c t r = closeShare c r := by
          rw [closeAmount_eq h hlock, if_neg hrest]
        rw [participants_cons_of_pos pre hlock, List.map_cons, List.sum_cons]
        rw [CloseTotals.step, if_neg hlock.ne'] at ih ⊢
        have hnext : (t.next c r).remainingWaln = t.remainingWaln - closeAmount c t r := rfl
        omega

end Pass

/-! ## The whole close -/

section Close

variable {s p w paid : ℕ} {investors : List InvestorRecord}

lemma sum_withoutHistory {f : InvestorRecord → ℕ} (hf : ∀ r, f r.withoutHistory = f r)
    (l : List InvestorRecord) :
    ((l.map InvestorRecord.withoutHistory).map f).sum = (l.map f).sum := by
  rw [List.map_map]
  congr 1
  exact List.map_congr_left fun r _ => hf r

/-- The history plays no part in the terms of the close. -/
lemma closeTerms_withoutHistory :
    closeTerms s p w paid (investors.map InvestorRecord.withoutHistory)
      = closeTerms s p w paid investors := by
  rw [closeTerms, closeTerms, lockSums, lockSums, participants_withoutHistory, List.length_map,
    sum_withoutHistory (fun _ => rfl), lockedUsdc, sum_withoutHistory (fun _ => rfl), lockedUsdc]

lemma closeStart_withoutHistory :
    closeStart w paid (investors.map InvestorRecord.withoutHistory)
      = closeStart w paid investors := by
  rw [closeStart, closeStart, lockedUsdc, sum_withoutHistory (fun _ => rfl),
    sum_withoutHistory (fun _ => rfl), lockedUsdc]

/-- The conditions of a forced close, without any on the lifetime counters. -/
structure Closable (s p w paid : ℕ) (investors : List InvestorRecord) : Prop where
  length_le : investors.length ≤ MAX_INVESTORS
  full : ∀ r ∈ investors, r.usdcLockedCurrentRound * s < 2 ^ 128
  full_lt : ∀ r ∈ investors, baseWaln s p r < 2 ^ 64
  full_pos : 0 < (investors.map (baseWaln s p)).sum
  waln : w < 2 ^ 64
  paid_pos : 0 < paid
  paid_le : paid ≤ lockedUsdc investors
  usdc : poolUsdc investors < 2 ^ 64
  volume : poolVolume investors < 2 ^ 64

variable (h : Closable s p w paid investors)

include h

lemma Closable.price_pos : 0 < p := by
  by_contra hp
  have hzero : investors.map (baseWaln s p) = investors.map fun _ => 0 := by
    refine List.map_congr_left fun r _ => ?_
    rw [baseWaln, Nat.eq_zero_of_not_pos hp, Nat.div_zero]
  have := h.full_pos
  simp [hzero] at this

lemma Closable.full_sum_lt : (investors.map (baseWaln s p)).sum < 2 ^ 128 := by
  have hle := List.sum_le_card_nsmul (investors.map (baseWaln s p)) (2 ^ 64) (by
    simp only [List.mem_map]
    rintro x ⟨r, hr, rfl⟩
    exact (h.full_lt r hr).le)
  have hlen := h.length_le
  rw [List.length_map] at hle
  rw [MAX_INVESTORS] at hlen
  calc (investors.map (baseWaln s p)).sum ≤ investors.length * 2 ^ 64 := by simpa using hle
    _ < 2 ^ 128 := by omega

lemma Closable.ready : CloseReady (closeTerms s p w paid investors)
    (investors.map InvestorRecord.withoutHistory) (closeStart w paid investors) := by
  have hmem : ∀ {P : InvestorRecord → Prop}, (∀ r ∈ investors, P r.withoutHistory) →
      ∀ r ∈ investors.map InvestorRecord.withoutHistory, P r := by
    intro P hP r hr
    obtain ⟨r₀, hr₀, rfl⟩ := List.mem_map.mp hr
    exact hP r₀ hr₀
  have husdc := h.usdc
  rw [← closeTerms_withoutHistory, ← closeStart_withoutHistory]
  refine closeReady_start h.price_pos (hmem h.full) ?_ (hmem h.full_lt) h.waln h.paid_pos ?_ ?_ ?_
    (hmem fun r hr => ?_) (hmem fun r _ => ?_)
  · rw [sum_withoutHistory (fun _ => rfl)]
    exact h.full_pos
  · rw [lockedUsdc, sum_withoutHistory (fun _ => rfl)]
    exact h.paid_le
  · rw [poolUsdc, sum_withoutHistory (fun _ => rfl)]
    exact husdc
  · rw [poolVolume, sum_withoutHistory (fun _ => rfl)]
    exact h.volume
  · have hpos := position_le_poolUsdc hr
    rw [InvestorRecord.position] at hpos
    show 0 + r.usdcLockedCurrentRound < 2 ^ 64
    omega
  · show 0 + w < 2 ^ 64
    have := h.waln
    omega

/-- The whole remainder is placed, and the charges come to what was paid. -/
lemma Closable.totals :
    let totals := investors.foldl (CloseTotals.step (closeTerms s p w paid investors))
      (closeStart w paid investors)
    totals.remainingUsdcRemainder = 0 ∧ totals.totalUsdcSpent = paid := by
  intro totals
  obtain ⟨l', t', hloop, hrem, hsum⟩ := forMut_closeRecord_total h.ready
  have hready : CloseReady (closeTerms s p w paid investors)
      ((investors.map InvestorRecord.withoutHistory).map InvestorRecord.withoutHistory)
      (closeStart w paid investors) := by
    rw [List.map_map]
    exact h.ready
  obtain ⟨-, -, ht⟩ := (forMut_closeRecord_iff hready).mp hloop
  rw [List.foldl_map] at ht
  rw [show t' = totals from ht] at hrem hsum
  refine ⟨hrem, ?_⟩
  rw [sum_withoutHistory (fun _ => rfl)] at hsum
  have hbase : (investors.map (baseSpent paid (lockedUsdc investors))).sum ≤ paid :=
    sum_share_le investors InvestorRecord.usdcLockedCurrentRound paid rfl
  have hrest : totals.totalUsdcSpent
      = 0 + (investors.map (baseSpent paid (lockedUsdc investors))).sum
      + (paid - (investors.map (baseSpent paid (lockedUsdc investors))).sum) := hsum
  omega

/-- **The passes of a forced close fail only when a lifetime counter overflows**, and otherwise
apply the charges. -/
lemma closePool_charges {c : CloseTerms} {t : CloseTotals}
    (hc : c = closeTerms s p w paid investors) (ht : t = closeStart w paid investors) :
    closePool s p w paid investors =
      if LifetimesFit investors (charges c t investors) then
        .ok (chargedPool investors (charges c t investors), investors.foldl (CloseTotals.step c) t)
      else .error (.Program .ArithmeticOverflow) := by
  have hready := h.ready
  obtain ⟨hrem, hspent⟩ := h.totals
  rw [closePool_eq h.price_pos h.full h.full_pos h.full_sum_lt h.paid_pos h.paid_le h.usdc]
  rw [← hc, ← ht] at hready hrem hspent ⊢
  split_ifs with hlife
  · rw [(forMut_closeRecord_iff hready).mpr ⟨hlife, rfl, rfl⟩, committed_ok, ok_bind]
    dsimp only
    rw [ensure_of _ hrem, ok_bind, ensure_of _ hspent, ok_bind]
    rfl
  · rw [eq_error_of_failsOnly (e := .Program .ArithmeticOverflow)
      (failsOnly_committed (failsOnly_forMut (closeRecord_failsOnly c) investors t)), error_bind]
    rintro ⟨l', t'⟩ hok
    rw [committed_eq_ok] at hok
    exact hlife ((forMut_closeRecord_iff hready).mp (Prod.ext hok.1 hok.2)).1

/-- What is left for the last participant: its share, and less than a unit for each participant
more, since the shares together miss the wALN of the round by no more than that. -/
lemma Closable.last_amount {pre post : List InvestorRecord} {r : InvestorRecord}
    (hsplit : investors = pre ++ r :: post) (hlock : 0 < r.usdcLockedCurrentRound)
    (hlast : participants post = []) :
    let F := (investors.map (baseWaln s p)).sum
    let c := closeTerms s p w paid investors
    let amount := closeAmount c (pre.foldl (CloseTotals.step c) (closeStart w paid investors)) r
    share w F (baseWaln s p r) ≤ amount ∧
      amount < share w F (baseWaln s p r) + (participants investors).length := by
  intro F c amount
  have hready : CloseReady c ((pre ++ r :: post).map InvestorRecord.withoutHistory)
      (closeStart w paid investors) := hsplit ▸ h.ready
  have hparts : participants investors = participants pre ++ [r] := by
    rw [hsplit, participants, List.filter_append]
    exact congrArg _ ((participants_cons_of_pos post hlock).trans (by rw [hlast]))
  have hsome : participants (r :: post) ≠ [] := by
    rw [participants_cons_of_pos post hlock]
    exact List.cons_ne_nil _ _
  have hrest := remainingWaln_add_shares hready hsome
  have hle : ((participants investors).map fun a => share w F (baseWaln s p a)).sum ≤ w :=
    sum_share_le (participants investors) (baseWaln s p) w
      (sum_baseWaln_participants s p investors)
  have hlt : w < ((participants investors).map fun a => share w F (baseWaln s p a)).sum
      + (participants investors).length :=
    amount_lt_sum_share (participants investors) (baseWaln s p) w
      (sum_baseWaln_participants s p investors) h.full_pos
  have hshares : ((participants investors).map fun a => share w F (baseWaln s p a)).sum
      = ((participants pre).map (closeShare c)).sum + share w F (baseWaln s p r) := by
    rw [hparts, List.map_append, List.sum_append, List.map_singleton, List.sum_singleton]
    rfl
  have hw : (closeStart w paid investors).remainingWaln = w := rfl
  have hamount : amount
      = (pre.foldl (CloseTotals.step c) (closeStart w paid investors)).remainingWaln := by
    rw [show amount = closeAmount c _ r from rfl, closeAmount_eq (closeReady_append hready) hlock,
      if_pos hlast]
  omega

/-- The charge of one participant, at the place where the pass comes to it. -/
lemma Closable.charge_exact {pre post : List InvestorRecord} {r : InvestorRecord}
    (hsplit : investors = pre ++ r :: post) (hlock : 0 < r.usdcLockedCurrentRound) :
    let F := (investors.map (baseWaln s p)).sum
    ∃ charge, (charges (closeTerms s p w paid investors) (closeStart w paid investors)
        investors)[pre.length]? = some charge ∧
      (charge.usdcSpent = share paid (lockedUsdc investors) r.usdcLockedCurrentRound ∨
        charge.usdcSpent = share paid (lockedUsdc investors) r.usdcLockedCurrentRound + 1) ∧
      charge.usdcSpent ≤ r.usdcLockedCurrentRound ∧
      (participants post ≠ [] → charge.walnAlloc = share w F (baseWaln s p r)) ∧
      (participants post = [] → share w F (baseWaln s p r) ≤ charge.walnAlloc ∧
        charge.walnAlloc < share w F (baseWaln s p r) + (participants investors).length) := by
  intro F
  set c := closeTerms s p w paid investors with hc
  set t := closeStart w paid investors with ht
  have hready : CloseReady c ((pre ++ r :: post).map InvestorRecord.withoutHistory) t :=
    hsplit ▸ h.ready
  have hhere := closeReady_append hready
  refine ⟨⟨closeSpent c (pre.foldl (CloseTotals.step c) t) r,
    closeAmount c (pre.foldl (CloseTotals.step c) t) r⟩, ?_, ?_, ?_, fun hmore => ?_,
    fun hlast => ?_⟩
  · rw [hsplit, charges_getElem?, chargeOf, if_neg hlock.ne']
  · show closeSpent c _ r = baseSpent paid (lockedUsdc investors) r ∨
      closeSpent c _ r = baseSpent paid (lockedUsdc investors) r + 1
    rw [closeSpent, extraCharge]
    split_ifs
    · exact .inr rfl
    · exact .inl rfl
  · exact hhere.closeSpent_le
  · show closeAmount c _ r = closeShare c r
    rw [closeAmount_eq hhere hlock, if_neg hmore]
  · exact h.last_amount hsplit hlock hlast

lemma Closable.participants_ne_nil : participants investors ≠ [] := by
  intro hnone
  have hsum := sum_baseWaln_participants s p investors
  have hpos := h.full_pos
  rw [← hsum, hnone] at hpos
  simp at hpos

end Close

/-- **A forced close distributes exactly.**  For every pool with the amounts of a reachable state,
any price and decimals at which the locks buy something, any amount of wALN, and any USDC paid, at
most the sum of the locks, there are charges, one for every record, such that the passes of
`close_round` apply them unless a lifetime counter overflows.  Every participant is charged its
share, or one unit more, and at most its lock; the rest of the lock is refunded.  The charges come
to exactly what was paid.  Every participant but the last is given its share of the wALN, the last
one what is left, which is less than a unit for each participant more; nothing remains. -/
theorem forced_close_exact {d p w paid : ℕ} {investors : List InvestorRecord}
    (h : Closable (10 ^ d) p w paid investors) :
    let F := (investors.map (baseWaln (10 ^ d) p)).sum
    ∃ (cs : List Charge) (totals : CloseTotals),
      closePool (10 ^ d) p w paid investors =
        (if LifetimesFit investors cs then .ok (chargedPool investors cs, totals)
        else .error (.Program .ArithmeticOverflow)) ∧
      cs.length = investors.length ∧
      (∀ pre r post, investors = pre ++ r :: post → r.usdcLockedCurrentRound = 0 →
        cs[pre.length]? = some ⟨0, 0⟩) ∧
      (∀ pre r post, investors = pre ++ r :: post → 0 < r.usdcLockedCurrentRound →
        ∃ charge, cs[pre.length]? = some charge ∧
          (charge.usdcSpent = share paid (lockedUsdc investors) r.usdcLockedCurrentRound ∨
            charge.usdcSpent = share paid (lockedUsdc investors) r.usdcLockedCurrentRound + 1) ∧
          charge.usdcSpent ≤ r.usdcLockedCurrentRound ∧
          (closedRecord charge.usdcSpent charge.walnAlloc r).usdcDeposited + charge.usdcSpent
            = r.usdcDeposited + r.usdcLockedCurrentRound ∧
          (participants post ≠ [] → charge.walnAlloc = share w F (baseWaln (10 ^ d) p r)) ∧
          (participants post = [] → share w F (baseWaln (10 ^ d) p r) ≤ charge.walnAlloc ∧
            charge.walnAlloc
              < share w F (baseWaln (10 ^ d) p r) + (participants investors).length)) ∧
      (cs.map Charge.usdcSpent).sum = paid ∧ totals.totalUsdcSpent = paid ∧
      totals.remainingUsdcRemainder = 0 ∧
      (cs.map Charge.walnAlloc).sum = w ∧ checkedSub w totals.totalWalnPurchased = some 0 := by
  intro F
  set c := closeTerms (10 ^ d) p w paid investors with hc
  set t := closeStart w paid investors with ht
  obtain ⟨hrem, hspent⟩ := h.totals
  have htotals := foldl_step_totals (c := c) investors t
  have hwaln : ((charges c t investors).map Charge.walnAlloc).sum = w :=
    sum_walnAlloc h.ready h.participants_ne_nil
  have hzero : t.totalUsdcSpent = 0 ∧ t.totalWalnPurchased = 0 := ⟨rfl, rfl⟩
  have hsum : ((charges c t investors).map Charge.usdcSpent).sum = paid := by
    have := htotals.1.symm.trans hspent
    rwa [hzero.1, Nat.zero_add] at this
  refine ⟨charges c t investors, investors.foldl (CloseTotals.step c) t, closePool_charges h hc ht,
    length_charges investors t, ?_, ?_, hsum, hspent, hrem, hwaln, ?_⟩
  · intro pre r post hsplit hlock
    rw [hsplit, charges_getElem?, chargeOf, if_pos hlock]
  · intro pre r post hsplit hlock
    obtain ⟨charge, hget, hshare, hle, hmore, hlast⟩ := h.charge_exact hsplit hlock
    refine ⟨charge, hget, hshare, hle, ?_, hmore, hlast⟩
    simp only [closedRecord]
    omega
  · rw [htotals.2, hzero.2, Nat.zero_add, hwaln]
    simp

/-- Three participants with locks of `50`, `30` and `20`, and one investor without a lock. -/
def halfFilled : List InvestorRecord :=
  [{ InvestorRecord.empty 21 with
      usdcDeposited := 7, usdcLockedCurrentRound := 50, aatVolume := 5 },
   { InvestorRecord.empty 22 with usdcDeposited := 9 },
   { InvestorRecord.empty 23 with usdcLockedCurrentRound := 30, aatVolume := 3 },
   { InvestorRecord.empty 24 with usdcLockedCurrentRound := 20, aatVolume := 2 }]

/-- The charges come to too little to overflow a counter of `halfFilled`. -/
lemma lifetimesFit_halfFilled {cs : List Charge} (hspent : (cs.map Charge.usdcSpent).sum = 47)
    (hwaln : (cs.map Charge.walnAlloc).sum = 233) : LifetimesFit halfFilled cs := by
  rintro ⟨r, charge⟩ hx -
  obtain ⟨hr, hcharge⟩ := List.of_mem_zip hx
  have hcounters : ∀ r ∈ halfFilled, r.usdcCommitted = 0 ∧ r.walnPurchasedTotal = 0 := by decide
  obtain ⟨hcommitted, hpurchased⟩ := hcounters r hr
  have hspent' : charge.usdcSpent ≤ (cs.map Charge.usdcSpent).sum :=
    List.single_le_sum (fun _ _ => Nat.zero_le _) _ (List.mem_map_of_mem hcharge)
  have hwaln' : charge.walnAlloc ≤ (cs.map Charge.walnAlloc).sum :=
    List.single_le_sum (fun _ _ => Nat.zero_le _) _ (List.mem_map_of_mem hcharge)
  dsimp only
  omega

/-- `47` paid for `233` of `500` wALN: the first participant pays the odd unit, the last one gets
the wALN that is left. -/
theorem forced_close_exact_halfFilled :
    Closable (10 ^ 1) 2 233 47 halfFilled ∧
    ∃ (cs : List Charge) (totals : CloseTotals), LifetimesFit halfFilled cs ∧
      closePool (10 ^ 1) 2 233 47 halfFilled = .ok (chargedPool halfFilled cs, totals) ∧
      (cs.map Charge.usdcSpent).sum = 47 ∧ (cs.map Charge.walnAlloc).sum = 233 ∧
      charges (closeTerms (10 ^ 1) 2 233 47 halfFilled) (closeStart 233 47 halfFilled) halfFilled
        = [⟨24, 116⟩, ⟨0, 0⟩, ⟨14, 69⟩, ⟨9, 48⟩] := by
  have h : Closable (10 ^ 1) 2 233 47 halfFilled :=
    ⟨by decide, by decide, by decide, by decide, by decide, by decide, by decide, by decide,
      by decide⟩
  obtain ⟨cs, totals, hclose, -, -, -, hspent, -, -, hwaln, -⟩ := forced_close_exact h
  have hlife := lifetimesFit_halfFilled hspent hwaln
  rw [if_pos hlife] at hclose
  exact ⟨h, cs, totals, hlife, hclose, hspent, hwaln, by decide⟩

end Floor
