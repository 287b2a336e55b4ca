import FloorProgram.Instructions.CloseRound
import FloorProgram.Lemmas.Settlement

/-!
# The passes of a forced close

`closePool` in both directions.

* `closePool_settlement` — when it returns, the round is settled: the charges sum to what the
  sellers were paid, and the entries hold exactly the wALN that came in.
* `closePool_eq` and `forMut_closeRecord_total` — on amounts that fit their machine words, when the
  sellers were paid no more than is locked, the reading passes succeed and the writing pass places
  the whole remainder.  The remainder of the rounded-down charges is at most the number of
  participants with room for one unit more.
-/

namespace Floor

open Checked Loop Keyed Search ProRata

/-! ## The two read-only passes -/

/-- The sums with one more record counted. -/
def LockSums.plus (s p : ℕ) (t : LockSums) (r : InvestorRecord) : LockSums :=
  { totalFullWaln := t.totalFullWaln + baseWaln s p r
    totalLockedUsdc := t.totalLockedUsdc + r.usdcLockedCurrentRound
    eligibleCount := t.eligibleCount + (participants [r]).length }

/-- A step of the first pass adds the lock and what it would buy. -/
lemma addLock_eq_ok {s p : ℕ} {t t' : LockSums} {r : InvestorRecord} :
    addLock s p t r = .ok t' ↔
      (0 < r.usdcLockedCurrentRound → r.usdcLockedCurrentRound * s < 2 ^ 128 ∧ p ≠ 0 ∧
        t.totalFullWaln + baseWaln s p r < 2 ^ 128 ∧
        t.totalLockedUsdc + r.usdcLockedCurrentRound < 2 ^ 128) ∧ t' = t.plus s p r := by
  rw [addLock]
  split_ifs with hlock
  · have hsame : t.plus s p r = t := by simp [LockSums.plus, baseWaln, participants, hlock]
    simp [hsame, hlock, eq_comm]
  · have hpos := Nat.pos_of_ne_zero hlock
    simp only [bind_eq_ok, mulDiv_eq_ok, arith_eq_ok, checkedAdd_eq_some, pure_eq_ok,
      LockSums.plus, participants, List.filter_cons, hpos, decide_true, if_true, List.filter_nil,
      List.length_cons, List.length_nil, Nat.zero_add, forall_const]
    constructor
    · rintro ⟨_, ⟨hmul, hne, rfl⟩, _, ⟨hfull, rfl⟩, _, ⟨hlocked, rfl⟩, rfl⟩
      exact ⟨⟨hmul, hne, hfull, hlocked⟩, rfl⟩
    · rintro ⟨⟨hmul, hne, hfull, hlocked⟩, rfl⟩
      exact ⟨_, ⟨hmul, hne, rfl⟩, _, ⟨hfull, rfl⟩, _, ⟨hlocked, rfl⟩, rfl⟩

/-- The sums of a whole pool. -/
def lockSums (s p : ℕ) (investors : List InvestorRecord) : LockSums :=
  { totalFullWaln := (investors.map (baseWaln s p)).sum
    totalLockedUsdc := lockedUsdc investors
    eligibleCount := (participants investors).length }

/-- The two sums of the first pass, and its count. -/
lemma foldl_plus (s p : ℕ) (investors : List InvestorRecord) (t : LockSums) :
    investors.foldl (LockSums.plus s p) t
      = { totalFullWaln := t.totalFullWaln + (investors.map (baseWaln s p)).sum
          totalLockedUsdc := t.totalLockedUsdc + lockedUsdc investors
          eligibleCount := t.eligibleCount + (participants investors).length } := by
  induction investors generalizing t with
  | nil => rfl
  | cons r investors ih =>
      have hsplit : participants (r :: investors) = participants [r] ++ participants investors :=
        List.filter_append [r] investors
      rw [List.foldl_cons, ih, hsplit]
      simp [LockSums.plus, lockedUsdc, Nat.add_assoc]

/-- What the first pass returns. -/
lemma sumLocks_ok {s p : ℕ} {investors : List InvestorRecord} {t : LockSums}
    (h : sumLocks s p investors = .ok t) : t = lockSums s p investors := by
  have key : ∀ {l : List InvestorRecord} {a b : LockSums},
      l.foldlM (addLock s p) a = .ok b → b = l.foldl (LockSums.plus s p) a := by
    intro l
    induction l with
    | nil =>
        intro a b hab
        rw [List.foldlM_nil, pure_eq_ok] at hab
        simp [hab]
    | cons r l ih =>
        intro a b hab
        rw [List.foldlM_cons, bind_eq_ok] at hab
        obtain ⟨a', hr, hab⟩ := hab
        rw [List.foldl_cons, ← (addLock_eq_ok.mp hr).2]
        exact ih hab
  rw [key h, foldl_plus, lockSums]
  simp

/-- The first pass returns when the locks and what they buy fit. -/
lemma sumLocks_total {s p : ℕ} {investors : List InvestorRecord} (hp : 0 < p)
    (hmul : ∀ r ∈ investors, r.usdcLockedCurrentRound * s < 2 ^ 128)
    (hfull : (investors.map (baseWaln s p)).sum < 2 ^ 128)
    (hlocked : lockedUsdc investors < 2 ^ 128) :
    sumLocks s p investors = .ok (lockSums s p investors) := by
  have key : ∀ {l : List InvestorRecord} {a : LockSums},
      (∀ r ∈ l, r.usdcLockedCurrentRound * s < 2 ^ 128) →
      a.totalFullWaln + (l.map (baseWaln s p)).sum < 2 ^ 128 →
      a.totalLockedUsdc + lockedUsdc l < 2 ^ 128 →
      l.foldlM (addLock s p) a = .ok (l.foldl (LockSums.plus s p) a) := by
    intro l
    induction l with
    | nil => exact fun _ _ _ => rfl
    | cons r l ih =>
        intro a hm hf hl
        simp only [lockedUsdc, List.map_cons, List.sum_cons] at hf hl
        have hr : addLock s p a r = .ok (a.plus s p r) :=
          addLock_eq_ok.mpr ⟨fun _ => ⟨hm r (by simp), hp.ne', by omega, by omega⟩, rfl⟩
        rw [List.foldlM_cons, hr, ok_bind, List.foldl_cons]
        refine ih (fun x hx => hm x (by simp [hx])) ?_ ?_
        · simp only [LockSums.plus]
          omega
        · simp only [LockSums.plus, lockedUsdc]
          omega
  rw [sumLocks, key hmul (by simpa using hfull) (by simpa using hlocked), foldl_plus, lockSums]
  simp

/-- The charge of one participant, rounded down. -/
def baseSpent (usdcPaidForRound totalLockedUsdc : ℕ) (r : InvestorRecord) : ℕ :=
  share usdcPaidForRound totalLockedUsdc r.usdcLockedCurrentRound

/-- A step of the second pass adds the rounded charge. -/
lemma addBaseSpent_eq_ok {paid total t t' : ℕ} {r : InvestorRecord} :
    addBaseSpent paid total t r = .ok t' ↔
      (0 < r.usdcLockedCurrentRound → paid * r.usdcLockedCurrentRound < 2 ^ 128 ∧ total ≠ 0 ∧
        baseSpent paid total r < 2 ^ 64 ∧ t + baseSpent paid total r < 2 ^ 64) ∧
      t' = t + baseSpent paid total r := by
  rw [addBaseSpent]
  split_ifs with hlock
  · simp [baseSpent, share, hlock, eq_comm]
  · simp only [bind_eq_ok, mulDivU64_eq_ok, arith_eq_ok, checkedAdd_eq_some,
      Nat.pos_of_ne_zero hlock, forall_const]
    constructor
    · rintro ⟨_, ⟨hmul, hne, hq, rfl⟩, hfit, rfl⟩
      exact ⟨⟨hmul, hne, hq, hfit⟩, rfl⟩
    · rintro ⟨⟨hmul, hne, hq, hfit⟩, rfl⟩
      exact ⟨_, ⟨hmul, hne, hq, rfl⟩, hfit, rfl⟩

/-- What the second pass returns. -/
lemma sumBaseSpent_ok {paid total : ℕ} {investors : List InvestorRecord} {t : ℕ}
    (h : sumBaseSpent paid total investors = .ok t) :
    t = (investors.map (baseSpent paid total)).sum := by
  have key : ∀ {l : List InvestorRecord} {a b : ℕ},
      l.foldlM (addBaseSpent paid total) a = .ok b →
      b = a + (l.map (baseSpent paid total)).sum := by
    intro l
    induction l with
    | nil =>
        intro a b hab
        rw [List.foldlM_nil, pure_eq_ok] at hab
        simp [hab]
    | cons r l ih =>
        intro a b hab
        rw [List.foldlM_cons, bind_eq_ok] at hab
        obtain ⟨a', hr, hab⟩ := hab
        rw [ih hab, (addBaseSpent_eq_ok.mp hr).2, List.map_cons, List.sum_cons, Nat.add_assoc]
  simpa using key h

/-- The second pass returns when the charges fit. -/
lemma sumBaseSpent_total {paid total : ℕ} {investors : List InvestorRecord} (htotal : 0 < total)
    (hmul : ∀ r ∈ investors, paid * r.usdcLockedCurrentRound < 2 ^ 128)
    (hsum : (investors.map (baseSpent paid total)).sum < 2 ^ 64) :
    sumBaseSpent paid total investors = .ok (investors.map (baseSpent paid total)).sum := by
  have key : ∀ {l : List InvestorRecord} {a : ℕ},
      (∀ r ∈ l, paid * r.usdcLockedCurrentRound < 2 ^ 128) →
      a + (l.map (baseSpent paid total)).sum < 2 ^ 64 →
      l.foldlM (addBaseSpent paid total) a = .ok (a + (l.map (baseSpent paid total)).sum) := by
    intro l
    induction l with
    | nil => exact fun _ _ => rfl
    | cons r l ih =>
        intro a hm hs
        simp only [List.map_cons, List.sum_cons] at hs ⊢
        have hr : addBaseSpent paid total a r = .ok (a + baseSpent paid total r) :=
          addBaseSpent_eq_ok.mpr ⟨fun _ => ⟨hm r (by simp), htotal.ne', by omega, by omega⟩, rfl⟩
        rw [List.foldlM_cons, hr, ok_bind, ih (fun x hx => hm x (by simp [hx])) (by omega),
          Nat.add_assoc]
  rw [sumBaseSpent, key hmul (by simpa using hsum), Nat.zero_add]

/-! ## One step of the writing pass -/

/-- The wALN of a participant that is not the last. -/
def closeShare (c : CloseTerms) (r : InvestorRecord) : ℕ :=
  share c.walnAvailable c.sums.totalFullWaln (baseWaln c.scale c.floorPrice r)

/-- The wALN of a participant, given how many came before and what is left. -/
def closeAmount (c : CloseTerms) (t : CloseTotals) (r : InvestorRecord) : ℕ :=
  if t.processedEligible + 1 = c.sums.eligibleCount then t.remainingWaln else closeShare c r

/-- The unit of the remainder a participant is charged, if there is one left and it has room. -/
def extraCharge (usdcPaidForRound totalLockedUsdc remainder : ℕ) (r : InvestorRecord) : ℕ :=
  if 0 < remainder ∧ baseSpent usdcPaidForRound totalLockedUsdc r < r.usdcLockedCurrentRound then 1
  else 0

/-- The charge of a participant. -/
def closeSpent (c : CloseTerms) (t : CloseTotals) (r : InvestorRecord) : ℕ :=
  baseSpent c.usdcPaidForRound c.sums.totalLockedUsdc r
    + extraCharge c.usdcPaidForRound c.sums.totalLockedUsdc t.remainingUsdcRemainder r

/-- A participant's record after the close. -/
def closedRecord (spent waln : ℕ) (r : InvestorRecord) : InvestorRecord :=
  { r with
    usdcLockedCurrentRound := 0
    usdcDeposited := r.usdcDeposited + (r.usdcLockedCurrentRound - spent)
    usdcCommitted := r.usdcCommitted + spent
    walnPurchasedTotal := r.walnPurchasedTotal + waln }

/-- The totals after one participant. -/
def CloseTotals.next (c : CloseTerms) (t : CloseTotals) (r : InvestorRecord) : CloseTotals :=
  { remainingWaln := t.remainingWaln - closeAmount c t r
    remainingUsdcRemainder := t.remainingUsdcRemainder
      - extraCharge c.usdcPaidForRound c.sums.totalLockedUsdc t.remainingUsdcRemainder r
    processedEligible := t.processedEligible + 1
    totalUsdcSpent := t.totalUsdcSpent + closeSpent c t r
    totalWalnPurchased := t.totalWalnPurchased + closeAmount c t r
    totalAatVolumeAtTrigger := t.totalAatVolumeAtTrigger + r.aatVolume
    participantData :=
      if 0 < closeAmount c t r then t.participantData ++ [⟨r.investor, closeAmount c t r⟩]
      else t.participantData }

/-- What the program computes for one charge. -/
lemma closeRoundUsdcSpent_eq_ok {paid total rem spent rem' : ℕ} {r : InvestorRecord} :
    closeRoundUsdcSpent paid r.usdcLockedCurrentRound total rem = .ok (spent, rem') ↔
      paid * r.usdcLockedCurrentRound < 2 ^ 128 ∧ total ≠ 0 ∧
        baseSpent paid total r + extraCharge paid total rem r < 2 ^ 64 ∧
        spent = baseSpent paid total r + extraCharge paid total rem r ∧
        rem' = rem - extraCharge paid total rem r := by
  simp only [closeRoundUsdcSpent, bind_eq_ok, mulDivU64_eq_ok, extraCharge, baseSpent, share]
  by_cases hroom : 0 < rem ∧ paid * r.usdcLockedCurrentRound / total < r.usdcLockedCurrentRound
  · simp only [hroom, and_self, if_true]
    constructor
    · rintro ⟨_, ⟨hmul, hne, -, rfl⟩, h⟩
      simp only [hroom, and_self, if_true, bind_eq_ok, arith_eq_ok, checkedAdd_eq_some,
        checkedSub_eq_some, pure_eq_ok, Prod.mk.injEq] at h
      obtain ⟨_, ⟨hfit, rfl⟩, _, ⟨-, rfl⟩, rfl, rfl⟩ := h
      exact ⟨hmul, hne, hfit, rfl, rfl⟩
    · rintro ⟨hmul, hne, hfit, rfl, rfl⟩
      refine ⟨_, ⟨hmul, hne, by omega, rfl⟩, ?_⟩
      simp only [hroom, and_self, if_true, bind_eq_ok, arith_eq_ok, checkedAdd_eq_some,
        checkedSub_eq_some, pure_eq_ok, Prod.mk.injEq]
      exact ⟨_, ⟨hfit, rfl⟩, _, ⟨hroom.1, rfl⟩, rfl, rfl⟩
  · simp only [hroom, if_false, Nat.add_zero, Nat.sub_zero]
    constructor
    · rintro ⟨_, ⟨hmul, hne, hq, rfl⟩, h⟩
      simp only [hroom, if_false, Except.ok.injEq, Prod.mk.injEq] at h
      exact ⟨hmul, hne, hq, h.1.symm, h.2.symm⟩
    · rintro ⟨hmul, hne, hfit, rfl, rfl⟩
      exact ⟨_, ⟨hmul, hne, hfit, rfl⟩, if_neg hroom⟩

/-- A record without a lock is skipped. -/
lemma closeRecord_of_unlocked {c : CloseTerms} {t : CloseTotals} {r : InvestorRecord}
    (h : r.usdcLockedCurrentRound = 0) : closeRecord c t r = .ok (r, t) := if_pos h

/-- What the writing pass demands of one participant. -/
structure CloseFits (c : CloseTerms) (t : CloseTotals) (r : InvestorRecord) : Prop where
  full : r.usdcLockedCurrentRound * c.scale < 2 ^ 128
  price : c.floorPrice ≠ 0
  amount : closeAmount c t r < 2 ^ 64
  pro_rata : t.processedEligible + 1 ≠ c.sums.eligibleCount →
    c.walnAvailable * baseWaln c.scale c.floorPrice r < 2 ^ 128 ∧ c.sums.totalFullWaln ≠ 0
  amount_le : closeAmount c t r ≤ t.remainingWaln
  paid : c.usdcPaidForRound * r.usdcLockedCurrentRound < 2 ^ 128
  locked : c.sums.totalLockedUsdc ≠ 0
  spent : closeSpent c t r < 2 ^ 64
  spent_le : closeSpent c t r ≤ r.usdcLockedCurrentRound
  deposited : r.usdcDeposited + (r.usdcLockedCurrentRound - closeSpent c t r) < 2 ^ 64
  committed : r.usdcCommitted + closeSpent c t r < 2 ^ 64
  purchased : r.walnPurchasedTotal + closeAmount c t r < 2 ^ 64
  totalSpent : t.totalUsdcSpent + closeSpent c t r < 2 ^ 64
  totalWaln : t.totalWalnPurchased + closeAmount c t r < 2 ^ 64
  totalVolume : t.totalAatVolumeAtTrigger + r.aatVolume < 2 ^ 64

/-- The last participant gets what is left, the others their part. -/
lemma closeAllocation_eq_ok {c : CloseTerms} {t : CloseTotals} {r : InvestorRecord} {a : ℕ} :
    closeAllocation c (t.processedEligible + 1) t.remainingWaln r.usdcLockedCurrentRound = .ok a ↔
      r.usdcLockedCurrentRound * c.scale < 2 ^ 128 ∧ c.floorPrice ≠ 0 ∧
        (t.processedEligible + 1 ≠ c.sums.eligibleCount →
          c.walnAvailable * baseWaln c.scale c.floorPrice r < 2 ^ 128 ∧
            c.sums.totalFullWaln ≠ 0) ∧ closeAmount c t r < 2 ^ 64 ∧ a = closeAmount c t r := by
  simp only [closeAllocation, bind_eq_ok, mulDiv_eq_ok, closeAmount, closeShare, share, baseWaln]
  by_cases hlast : t.processedEligible + 1 = c.sums.eligibleCount
  · simp only [if_pos hlast, arith_eq_ok, tryFrom_eq_some]
    constructor
    · rintro ⟨_, ⟨hfull, hp, rfl⟩, hfit, rfl⟩
      exact ⟨hfull, hp, fun hne => absurd hlast hne, hfit, rfl⟩
    · rintro ⟨hfull, hp, -, hfit, rfl⟩
      exact ⟨_, ⟨hfull, hp, rfl⟩, hfit, rfl⟩
  · simp only [if_neg hlast, mulDivU64_eq_ok]
    constructor
    · rintro ⟨_, ⟨hfull, hp, rfl⟩, hmul, hne, hfit, rfl⟩
      exact ⟨hfull, hp, fun _ => ⟨hmul, hne⟩, hfit, rfl⟩
    · rintro ⟨hfull, hp, hrest, hfit, rfl⟩
      obtain ⟨hmul, hne⟩ := hrest hlast
      exact ⟨_, ⟨hfull, hp, rfl⟩, hmul, hne, hfit, rfl⟩

/-- **One step of the writing pass**, for a participant. -/
lemma closeRecord_eq_ok {c : CloseTerms} {t t' : CloseTotals} {r r' : InvestorRecord}
    (hlock : 0 < r.usdcLockedCurrentRound) :
    closeRecord c t r = .ok (r', t') ↔
      CloseFits c t r ∧ r' = closedRecord (closeSpent c t r) (closeAmount c t r) r ∧
        t' = t.next c r := by
  rw [closeRecord, if_neg hlock.ne']
  simp only [bind_eq_ok, Prod.exists, closeAllocation_eq_ok, closeRoundUsdcSpent_eq_ok, arith_eq_ok,
    checkedAdd_eq_some, checkedSub_eq_some, pure_eq_ok, Prod.mk.injEq]
  constructor
  · rintro ⟨_, ⟨hfull, hp, hrata, hamt, rfl⟩, _, ⟨hle, rfl⟩, _, _, ⟨hpaid, hne, hspent, rfl, rfl⟩,
      _, ⟨hsle, rfl⟩, _, ⟨hdep, rfl⟩, _, ⟨hcom, rfl⟩, _, ⟨hpur, rfl⟩, _, ⟨hts, rfl⟩, _, ⟨htw, rfl⟩,
      _, ⟨htv, rfl⟩, rfl, rfl⟩
    exact ⟨⟨hfull, hp, hamt, hrata, hle, hpaid, hne, hspent, hsle, hdep, hcom, hpur, hts, htw, htv⟩,
      rfl, rfl⟩
  · rintro ⟨h, rfl, rfl⟩
    exact ⟨_, ⟨h.full, h.price, h.pro_rata, h.amount, rfl⟩, _, ⟨h.amount_le, rfl⟩, _, _,
      ⟨h.paid, h.locked, h.spent, rfl, rfl⟩, _, ⟨h.spent_le, rfl⟩, _, ⟨h.deposited, rfl⟩, _,
      ⟨h.committed, rfl⟩, _, ⟨h.purchased, rfl⟩, _, ⟨h.totalSpent, rfl⟩, _, ⟨h.totalWaln, rfl⟩, _,
      ⟨h.totalVolume, rfl⟩, rfl, rfl⟩

/-! ## The writing pass -/

/-- A record without a lock and without an entry is settled as it is. -/
lemma settledRecord_refl {data : List InvestorAlloc} {r : InvestorRecord}
    (hlock : r.usdcLockedCurrentRound = 0) (h : ∀ a ∈ data, a.investor ≠ r.investor) :
    SettledRecord data r r := by
  refine ⟨rfl, rfl, rfl, hlock, ?_, by rw [amountOf_of_forall_ne h, Nat.add_zero]⟩
  rw [InvestorRecord.position, hlock, Nat.add_zero]

/-- A closed record is settled by its entry. -/
lemma settledRecord_closed {spent : ℕ} {e : InvestorAlloc} {data : List InvestorAlloc}
    {r : InvestorRecord} (he : e.investor = r.investor)
    (hspent : spent ≤ r.usdcLockedCurrentRound) :
    SettledRecord (e :: data) r (closedRecord spent e.walnAmount r) := by
  refine ⟨rfl, rfl, rfl, rfl, ?_, ?_⟩
  · simp only [closedRecord, InvestorRecord.position]
    omega
  · rw [← he, amountOf_cons_self, closedRecord]

/-- An entry of another key does not settle a record. -/
lemma SettledRecord.cons_of_ne {e : InvestorAlloc} {data : List InvestorAlloc}
    {r r' : InvestorRecord} (h : SettledRecord data r r') (hne : e.investor ≠ r.investor) :
    SettledRecord (e :: data) r r' :=
  ⟨h.investor, h.aatVolume, h.usdcUnlockTs, h.unlocked, h.usdc,
    amountOf_cons_of_ne data hne ▸ h.walnPurchasedTotal⟩

/-- The data of a suffix does not mention an investor that does not occur in it. -/
lemma forall_ne_of_keys {k : Pubkey} {l : List InvestorRecord} {data : List InvestorAlloc}
    (hkeys : data.map InvestorAlloc.investor = (participants l).map byInvestor)
    (hk : k ∉ l.map byInvestor) : ∀ a ∈ data, a.investor ≠ k := by
  rintro a ha rfl
  have hmem : a.investor ∈ (participants l).map byInvestor :=
    hkeys ▸ List.mem_map_of_mem ha
  obtain ⟨x, hx, hxk⟩ := List.mem_map.mp hmem
  exact hk (List.mem_map.mpr ⟨x, (mem_participants.mp hx).1, hxk⟩)

/-- What the last participant leaves is nothing, and what any other leaves covers the shares of
those behind it. -/
lemma shares_le_next {c : CloseTerms} {r : InvestorRecord} {l : List InvestorRecord}
    {t : CloseTotals} (hlock : 0 < r.usdcLockedCurrentRound)
    (hcount : t.processedEligible + (participants (r :: l)).length = c.sums.eligibleCount)
    (hshares : ((participants (r :: l)).map (closeShare c)).sum ≤ t.remainingWaln) :
    ((participants l).map (closeShare c)).sum ≤ (t.next c r).remainingWaln := by
  rw [participants_cons_of_pos l hlock] at hcount hshares
  simp only [List.length_cons, List.map_cons, List.sum_cons] at hcount hshares
  simp only [CloseTotals.next, closeAmount]
  split_ifs with hlast
  · have : participants l = [] := List.length_eq_zero_iff.mp (by omega)
    simp [this]
  · omega

/-- What the writing pass does to a suffix of the pool when it writes the entries `data` and charges
`usdc` in all. -/
structure Distributed (l l' : List InvestorRecord) (t t' : CloseTotals)
    (data : List InvestorAlloc) (usdc : ℕ) : Prop where
  keys : data.map InvestorAlloc.investor = (participants l).map byInvestor
  pos : ∀ a ∈ data, 0 < a.walnAmount
  records : List.Forall₂ (SettledRecord data) l l'
  committed : committedUsdc l' = committedUsdc l + usdc
  participantData : t'.participantData = t.participantData ++ data
  totalWaln : t'.totalWalnPurchased = t.totalWalnPurchased + entriesWaln data
  totalSpent : t'.totalUsdcSpent = t.totalUsdcSpent + usdc
  all : participants l ≠ [] → entriesWaln data = t.remainingWaln

/-- Over no records nothing is distributed. -/
lemma Distributed.nil (t : CloseTotals) : Distributed [] [] t t [] 0 :=
  { keys := rfl
    pos := by simp
    records := .nil
    committed := rfl
    participantData := by simp
    totalWaln := rfl
    totalSpent := rfl
    all := fun hne => absurd rfl hne }

/-- A record without a lock takes no part. -/
lemma Distributed.skip {r : InvestorRecord} {l l' : List InvestorRecord} {t t' : CloseTotals}
    {data : List InvestorAlloc} {usdc : ℕ} (h : Distributed l l' t t' data usdc)
    (hlock : r.usdcLockedCurrentRound = 0) (hr : r.investor ∉ l.map byInvestor) :
    Distributed (r :: l) (r :: l') t t' data usdc := by
  have hparts := participants_cons_of_zero l hlock
  refine ⟨hparts ▸ h.keys, h.pos, .cons ?_ h.records, ?_, h.participantData, h.totalWaln,
    h.totalSpent, hparts ▸ h.all⟩
  · exact settledRecord_refl hlock (forall_ne_of_keys h.keys hr)
  · have hcom := h.committed
    simp only [committedUsdc, List.map_cons, List.sum_cons] at hcom ⊢
    omega

/-- A participant is charged and gets an entry. -/
lemma Distributed.charge {c : CloseTerms} {r : InvestorRecord} {l l' : List InvestorRecord}
    {t t' : CloseTotals} {data : List InvestorAlloc} {usdc : ℕ}
    (h : Distributed l l' (t.next c r) t' data usdc) (hlock : 0 < r.usdcLockedCurrentRound)
    (hr : r.investor ∉ l.map byInvestor) (hfits : CloseFits c t r) (hamount : 0 < closeAmount c t r)
    (hcount : t.processedEligible + (participants (r :: l)).length = c.sums.eligibleCount) :
    Distributed (r :: l) (closedRecord (closeSpent c t r) (closeAmount c t r) r :: l') t t'
      (⟨r.investor, closeAmount c t r⟩ :: data) (closeSpent c t r + usdc) := by
  have hparts := participants_cons_of_pos l hlock
  have hcom := h.committed
  have hdata := h.participantData
  have hwaln := h.totalWaln
  have hspent := h.totalSpent
  have hall := h.all
  simp only [CloseTotals.next, if_pos hamount] at hdata hwaln hspent hall
  refine ⟨by rw [hparts, List.map_cons, List.map_cons, h.keys], ?_,
    .cons (settledRecord_closed rfl hfits.spent_le) ?_, ?_, ?_, ?_, by omega, fun _ => ?_⟩
  · intro a ha
    rcases List.mem_cons.mp ha with rfl | ha
    · exact hamount
    · exact h.pos a ha
  · refine forall₂_imp_of_mem h.records fun x hx _ hsettled => hsettled.cons_of_ne ?_
    exact fun hk => hr (List.mem_map.mpr ⟨x, hx, hk.symm⟩)
  · simp only [committedUsdc, List.map_cons, List.sum_cons, closedRecord] at hcom ⊢
    omega
  · rw [hdata, List.append_assoc]
    rfl
  · simp only [entriesWaln, List.map_cons, List.sum_cons] at hwaln ⊢
    omega
  · have hle := hfits.amount_le
    simp only [entriesWaln, List.map_cons, List.sum_cons] at hall ⊢
    by_cases hlast : participants l = []
    · -- the last participant takes what is left
      have hnil : data = [] := by simpa [hlast] using h.keys
      have : closeAmount c t r = t.remainingWaln := by
        rw [closeAmount, if_pos]
        simpa [hparts, hlast] using hcount
      simp [hnil, this]
    · have := hall hlast
      omega

/-- **What the writing pass leaves**, on a suffix of the pool that still has its whole part to be
handed out. -/
theorem forMut_closeRecord {c : CloseTerms} :
    ∀ {l l' : List InvestorRecord} {t t' : CloseTotals}, NodupKeys byInvestor l →
      t.processedEligible + (participants l).length = c.sums.eligibleCount →
      (∀ r ∈ participants l, 0 < closeShare c r) →
      ((participants l).map (closeShare c)).sum ≤ t.remainingWaln →
      forMut (closeRecord c) t l = (l', .ok t') →
      ∃ data usdc, Distributed l l' t t' data usdc
  | [], l', t, t', _, _, _, _, h => by
      simp only [forMut_nil, Prod.mk.injEq, Except.ok.injEq] at h
      obtain ⟨rfl, rfl⟩ := h
      exact ⟨[], 0, .nil t⟩
  | r :: l, l', t, t', hnodup, hcount, hpos, hshares, h => by
      obtain ⟨r', t₁, rest, hr, hrest, rfl⟩ := forMut_cons_eq_ok h
      rw [NodupKeys, List.map_cons, List.nodup_cons] at hnodup
      rcases Nat.eq_zero_or_pos r.usdcLockedCurrentRound with hlock | hlock
      · rw [closeRecord_of_unlocked hlock] at hr
        simp only [Except.ok.injEq, Prod.mk.injEq] at hr
        obtain ⟨rfl, rfl⟩ := hr
        rw [participants_cons_of_zero l hlock] at hcount hpos hshares
        obtain ⟨data, usdc, hdist⟩ := forMut_closeRecord hnodup.2 hcount hpos hshares hrest
        exact ⟨data, usdc, hdist.skip hlock hnodup.1⟩
      · obtain ⟨hfits, rfl, rfl⟩ := (closeRecord_eq_ok hlock).mp hr
        have hparts := participants_cons_of_pos l hlock
        have hleft := shares_le_next hlock hcount hshares
        have hamount : 0 < closeAmount c t r := by
          have hshare := hpos r (by simp [hparts])
          simp only [hparts, List.map_cons, List.sum_cons] at hshares
          rw [closeAmount]
          split_ifs <;> omega
        have hnext : (t.next c r).processedEligible + (participants l).length
            = c.sums.eligibleCount := by
          rw [hparts, List.length_cons] at hcount
          simp only [CloseTotals.next]
          omega
        obtain ⟨data, usdc, hdist⟩ :=
          forMut_closeRecord hnodup.2 hnext (fun x hx => hpos x (by simp [hparts, hx])) hleft hrest
        exact ⟨_, _, hdist.charge hlock hnodup.1 hfits hamount hcount⟩

/-- Only participants are worth wALN. -/
lemma sum_baseWaln_participants (s p : ℕ) (investors : List InvestorRecord) :
    ((participants investors).map (baseWaln s p)).sum = (investors.map (baseWaln s p)).sum :=
  sum_participants (baseWaln s p) fun r hr => by rw [baseWaln, hr, Nat.zero_mul, Nat.zero_div]

/-- The terms `closePool` runs its writing pass under. -/
def closeTerms (s p walnInRound paid : ℕ) (investors : List InvestorRecord) : CloseTerms :=
  { scale := s, floorPrice := p, walnAvailable := walnInRound, usdcPaidForRound := paid,
    sums := lockSums s p investors }

/-- The totals the writing pass starts from. -/
def closeStart (walnInRound paid : ℕ) (investors : List InvestorRecord) : CloseTotals :=
  { remainingWaln := walnInRound
    remainingUsdcRemainder :=
      paid - (investors.map (baseSpent paid (lockedUsdc investors))).sum
    processedEligible := 0
    totalUsdcSpent := 0
    totalWalnPurchased := 0
    totalAatVolumeAtTrigger := 0
    participantData := [] }

/-- The checks of `closePool` around its writing pass. -/
lemma closePool_eq_ok {s p walnInRound paid : ℕ} {investors investors' : List InvestorRecord}
    {t : CloseTotals}
    (h : closePool s p walnInRound paid investors = .ok (investors', t)) :
    0 < (investors.map (baseWaln s p)).sum ∧ 0 < paid ∧ paid ≤ lockedUsdc investors ∧
      forMut (closeRecord (closeTerms s p walnInRound paid investors))
        (closeStart walnInRound paid investors) investors = (investors', .ok t) ∧
      t.totalUsdcSpent = paid := by
  simp only [closePool, bind_eq_ok, ensure_eq_ok, arith_eq_ok, checkedSub_eq_some, Prod.exists,
    committed_eq_ok, pure_eq_ok, Prod.mk.injEq] at h
  obtain ⟨sums, hsums, -, hfull, -, hpaid, -, hle, base, hbase, _, ⟨-, rfl⟩, closed, totals,
    ⟨hl, ht⟩, -, -, -, hspent, rfl, rfl⟩ := h
  obtain rfl := sumLocks_ok hsums
  obtain rfl := sumBaseSpent_ok hbase
  exact ⟨hfull, hpaid, hle, Prod.ext hl ht, hspent⟩

/-- **A forced close settles.**  The charges sum to what was paid, and the entries hold exactly the
wALN that came in. -/
theorem closePool_settlement {s p walnInRound paid : ℕ}
    {investors investors' : List InvestorRecord} {t : CloseTotals}
    (hnodup : NodupKeys byInvestor investors)
    (hpos : ∀ r ∈ participants investors,
      0 < share walnInRound (investors.map (baseWaln s p)).sum (baseWaln s p r))
    (h : closePool s p walnInRound paid investors = .ok (investors', t)) :
    t.totalUsdcSpent = paid ∧ t.totalWalnPurchased = walnInRound ∧
      entriesWaln (sortByKey InvestorAlloc.investor t.participantData) = walnInRound ∧
      0 < paid ∧ paid ≤ lockedUsdc investors ∧
      Settlement investors investors' (sortByKey InvestorAlloc.investor t.participantData)
        paid := by
  obtain ⟨hfull, hpaid, hle, hloop, hspent⟩ := closePool_eq_ok h
  have hsome : participants investors ≠ [] := by
    intro hnil
    have := sum_baseWaln_participants s p investors
    rw [hnil] at this
    simp only [List.map_nil, List.sum_nil] at this
    omega
  have hshares := sum_share_le (participants investors) (baseWaln s p) walnInRound
    (sum_baseWaln_participants s p investors)
  obtain ⟨data, usdc, hdist⟩ :=
    forMut_closeRecord (c := closeTerms s p walnInRound paid investors)
      (t := closeStart walnInRound paid investors) hnodup (Nat.zero_add _) hpos hshares hloop
  have hdata := hdist.participantData
  have hwaln := hdist.totalWaln
  have husdc := hdist.totalSpent
  have htotal := hdist.all hsome
  simp only [closeStart, List.nil_append, Nat.zero_add] at hdata hwaln husdc htotal
  obtain rfl : usdc = paid := husdc.symm.trans hspent
  rw [hdata, entriesWaln_sortByKey]
  exact ⟨hspent, hwaln.trans htotal, htotal, hpaid, hle,
    Settlement.of_data hnodup hdist.keys hdist.pos hdist.records hdist.committed⟩

/-! ## The writing pass never fails -/

/-- How many participants have room for one more unit. -/
def roomFor (c : CloseTerms) (l : List InvestorRecord) : ℕ :=
  (l.filter fun r =>
    baseSpent c.usdcPaidForRound c.sums.totalLockedUsdc r < r.usdcLockedCurrentRound).length

/-- What the writing pass needs of a suffix of the pool and the totals it meets it with. -/
structure CloseReady (c : CloseTerms) (l : List InvestorRecord) (t : CloseTotals) : Prop where
  count : t.processedEligible + (participants l).length = c.sums.eligibleCount
  shares : ((participants l).map (closeShare c)).sum ≤ t.remainingWaln
  price : c.floorPrice ≠ 0
  full : ∀ r ∈ l, r.usdcLockedCurrentRound * c.scale < 2 ^ 128
  pro_rata : ∀ r ∈ l, c.walnAvailable * baseWaln c.scale c.floorPrice r < 2 ^ 128
  totalFull : c.sums.totalFullWaln ≠ 0
  paid : ∀ r ∈ l, c.usdcPaidForRound * r.usdcLockedCurrentRound < 2 ^ 128
  locked : c.sums.totalLockedUsdc ≠ 0
  paid_le : c.usdcPaidForRound ≤ c.sums.totalLockedUsdc
  position : ∀ r ∈ l, r.position < 2 ^ 64
  committed : ∀ r ∈ l, r.usdcCommitted + r.usdcLockedCurrentRound < 2 ^ 64
  purchased : ∀ r ∈ l, r.walnPurchasedTotal + t.remainingWaln < 2 ^ 64
  totalWaln : t.totalWalnPurchased + t.remainingWaln < 2 ^ 64
  totalSpent : t.totalUsdcSpent + lockedUsdc l < 2 ^ 64
  totalVolume : t.totalAatVolumeAtTrigger + poolVolume l < 2 ^ 64
  remainder : t.remainingUsdcRemainder ≤ roomFor c l

/-- A charge is covered by its lock. -/
lemma CloseReady.closeSpent_le {c : CloseTerms} {r : InvestorRecord} {l : List InvestorRecord}
    {t : CloseTotals} (h : CloseReady c (r :: l) t) :
    closeSpent c t r ≤ r.usdcLockedCurrentRound := by
  have : baseSpent c.usdcPaidForRound c.sums.totalLockedUsdc r ≤ r.usdcLockedCurrentRound :=
    share_le h.paid_le
  rw [closeSpent, extraCharge]
  split_ifs <;> omega

/-- An amount is covered by what is left. -/
lemma CloseReady.closeAmount_le {c : CloseTerms} {r : InvestorRecord} {l : List InvestorRecord}
    {t : CloseTotals} (h : CloseReady c (r :: l) t) (hlock : 0 < r.usdcLockedCurrentRound) :
    closeAmount c t r ≤ t.remainingWaln := by
  have := h.shares
  simp only [participants_cons_of_pos l hlock, List.map_cons, List.sum_cons] at this
  rw [closeAmount]
  split_ifs <;> omega

/-- The program's demands on the next participant are met. -/
lemma CloseReady.fits {c : CloseTerms} {r : InvestorRecord} {l : List InvestorRecord}
    {t : CloseTotals} (h : CloseReady c (r :: l) t) (hlock : 0 < r.usdcLockedCurrentRound) :
    CloseFits c t r := by
  have hspent := h.closeSpent_le
  have hamount := h.closeAmount_le hlock
  have hmem : r ∈ r :: l := by simp
  have hpos := h.position r hmem
  have hcom := h.committed r hmem
  have hpur := h.purchased r hmem
  have hwaln := h.totalWaln
  have hts := h.totalSpent
  have htv := h.totalVolume
  simp only [InvestorRecord.position, lockedUsdc, poolVolume, List.map_cons, List.sum_cons]
    at hpos hts htv
  exact ⟨h.full r hmem, h.price, by omega, fun _ => ⟨h.pro_rata r hmem, h.totalFull⟩, hamount,
    h.paid r hmem, h.locked, by omega, hspent, by omega, by omega, by omega, by omega, by omega,
    by omega⟩

/-- A participant that is skipped changes nothing. -/
lemma CloseReady.skip {c : CloseTerms} {r : InvestorRecord} {l : List InvestorRecord}
    {t : CloseTotals} (h : CloseReady c (r :: l) t) (hlock : r.usdcLockedCurrentRound = 0) :
    CloseReady c l t := by
  have hparts := participants_cons_of_zero l hlock
  have hroom : roomFor c (r :: l) = roomFor c l := by simp [roomFor, hlock]
  have hts := h.totalSpent
  have htv := h.totalVolume
  simp only [lockedUsdc, poolVolume, List.map_cons, List.sum_cons] at hts htv
  exact ⟨hparts ▸ h.count, hparts ▸ h.shares, h.price, fun x hx => h.full x (by simp [hx]),
    fun x hx => h.pro_rata x (by simp [hx]), h.totalFull, fun x hx => h.paid x (by simp [hx]),
    h.locked, h.paid_le, fun x hx => h.position x (by simp [hx]),
    fun x hx => h.committed x (by simp [hx]), fun x hx => h.purchased x (by simp [hx]), h.totalWaln,
    by simp only [lockedUsdc]; omega, by simp only [poolVolume]; omega, hroom ▸ h.remainder⟩

/-- What is needed of the rest of the pool holds after a participant. -/
lemma CloseReady.next {c : CloseTerms} {r : InvestorRecord} {l : List InvestorRecord}
    {t : CloseTotals} (h : CloseReady c (r :: l) t) (hlock : 0 < r.usdcLockedCurrentRound) :
    CloseReady c l (t.next c r) := by
  have hspent := h.closeSpent_le
  have hamount := h.closeAmount_le hlock
  have hcount := h.count
  have hwaln := h.totalWaln
  have hts := h.totalSpent
  have htv := h.totalVolume
  have hrem := h.remainder
  rw [participants_cons_of_pos l hlock, List.length_cons] at hcount
  simp only [lockedUsdc, poolVolume, List.map_cons, List.sum_cons] at hts htv
  refine ⟨by simp only [CloseTotals.next]; omega, shares_le_next hlock h.count h.shares, h.price,
    fun x hx => h.full x (by simp [hx]),
    fun x hx => h.pro_rata x (by simp [hx]), h.totalFull, fun x hx => h.paid x (by simp [hx]),
    h.locked, h.paid_le, fun x hx => h.position x (by simp [hx]),
    fun x hx => h.committed x (by simp [hx]), fun x hx => ?_,
    by simp only [CloseTotals.next]; omega, by simp only [CloseTotals.next, lockedUsdc]; omega,
    by simp only [CloseTotals.next, poolVolume]; omega, ?_⟩
  · have := h.purchased x (by simp [hx])
    simp only [CloseTotals.next]
    omega
  · -- a unit of the remainder and a place for it go together
    simp only [CloseTotals.next, extraCharge]
    simp only [roomFor, List.filter_cons] at hrem ⊢
    by_cases hroom : baseSpent c.usdcPaidForRound c.sums.totalLockedUsdc r
        < r.usdcLockedCurrentRound
    · simp only [hroom, decide_true, if_true, List.length_cons, and_true] at hrem ⊢
      split_ifs <;> omega
    · simp only [hroom, decide_false, Bool.false_eq_true, if_false, and_false] at hrem ⊢
      omega

/-- **The writing pass runs to its end**, and places the whole remainder. -/
theorem forMut_closeRecord_total {c : CloseTerms} :
    ∀ {l : List InvestorRecord} {t : CloseTotals}, CloseReady c l t →
      ∃ l' t', forMut (closeRecord c) t l = (l', .ok t') ∧ t'.remainingUsdcRemainder = 0 ∧
        t'.totalUsdcSpent = t.totalUsdcSpent
          + (l.map (baseSpent c.usdcPaidForRound c.sums.totalLockedUsdc)).sum
          + t.remainingUsdcRemainder
  | [], t, h => by
      have h0 : t.remainingUsdcRemainder = 0 := Nat.le_zero.mp h.remainder
      exact ⟨[], t, rfl, h0, by simp [h0]⟩
  | r :: l, t, h => by
      rcases Nat.eq_zero_or_pos r.usdcLockedCurrentRound with hlock | hlock
      · obtain ⟨l', t', hloop, hrem, hsum⟩ := forMut_closeRecord_total (h.skip hlock)
        refine ⟨r :: l', t', ?_, hrem, ?_⟩
        · rw [forMut_cons_ok l (closeRecord_of_unlocked hlock), hloop]
        · have hbase : baseSpent c.usdcPaidForRound c.sums.totalLockedUsdc r = 0 := by
            simp [baseSpent, share, hlock]
          simpa [hbase] using hsum
      · have hr := (closeRecord_eq_ok hlock).mpr ⟨h.fits hlock, rfl, rfl⟩
        obtain ⟨l', t', hloop, hrem, hsum⟩ := forMut_closeRecord_total (h.next hlock)
        refine ⟨_, t', by rw [forMut_cons_ok l hr, hloop], hrem, ?_⟩
        have hle : extraCharge c.usdcPaidForRound c.sums.totalLockedUsdc
            t.remainingUsdcRemainder r ≤ t.remainingUsdcRemainder := by
          rw [extraCharge]
          split_ifs <;> omega
        simp only [CloseTotals.next, closeSpent, List.map_cons, List.sum_cons] at hsum ⊢
        omega

/-- The product of the payments and a lock fits 128 bits. -/
lemma paid_mul_lock_lt {paid : ℕ} {investors : List InvestorRecord}
    (hle : paid ≤ lockedUsdc investors) (hpool : poolUsdc investors < 2 ^ 64)
    {r : InvestorRecord} (hr : r ∈ investors) : paid * r.usdcLockedCurrentRound < 2 ^ 128 := by
  have hlocked := lockedUsdc_le_poolUsdc investors
  have hlock := lock_le_lockedUsdc hr
  calc paid * r.usdcLockedCurrentRound ≤ 2 ^ 63 * 2 * r.usdcLockedCurrentRound :=
        Nat.mul_le_mul_right _ (by omega)
    _ < 2 ^ 128 := by omega

/-- What the writing pass needs holds when it starts. -/
lemma closeReady_start {s p walnInRound paid : ℕ} {investors : List InvestorRecord} (hp : 0 < p)
    (hmul : ∀ r ∈ investors, r.usdcLockedCurrentRound * s < 2 ^ 128)
    (hfull : 0 < (investors.map (baseWaln s p)).sum)
    (hfull_lt : ∀ r ∈ investors, baseWaln s p r < 2 ^ 64) (hwaln : walnInRound < 2 ^ 64)
    (hpaid : 0 < paid) (hle : paid ≤ lockedUsdc investors) (hpool : poolUsdc investors < 2 ^ 64)
    (hvol : poolVolume investors < 2 ^ 64)
    (hcom : ∀ r ∈ investors, r.usdcCommitted + r.usdcLockedCurrentRound < 2 ^ 64)
    (hpur : ∀ r ∈ investors, r.walnPurchasedTotal + walnInRound < 2 ^ 64) :
    CloseReady (closeTerms s p walnInRound paid investors) investors
      (closeStart walnInRound paid investors) := by
  have hlocked := lockedUsdc_le_poolUsdc investors
  have hroom := remainder_le_room investors InvestorRecord.usdcLockedCurrentRound
    rfl (by simp only [lockedUsdc] at hle; omega) hle
  exact
    { count := Nat.zero_add _
      shares := sum_share_le (participants investors) (baseWaln s p) _
        (sum_baseWaln_participants s p investors)
      price := hp.ne'
      full := hmul
      pro_rata := by
        intro r hr
        have := hfull_lt r hr
        calc walnInRound * baseWaln s p r ≤ 2 ^ 63 * 2 * baseWaln s p r :=
              Nat.mul_le_mul_right _ (by omega)
          _ < 2 ^ 128 := by omega
      totalFull := hfull.ne'
      paid := fun r hr => paid_mul_lock_lt hle hpool hr
      locked := by
        show lockedUsdc investors ≠ 0
        omega
      paid_le := hle
      position := fun r hr => (position_le_poolUsdc hr).trans_lt hpool
      committed := hcom
      purchased := hpur
      totalWaln := by simpa [closeStart] using hwaln
      totalSpent := by
        show 0 + lockedUsdc investors < 2 ^ 64
        omega
      totalVolume := by simpa [closeStart] using hvol
      remainder := Nat.sub_le_of_le_add (by rw [Nat.add_comm]; exact hroom) }

/-- The reading passes succeed; what is left is the writing pass and the two checks after it. -/
lemma closePool_eq {s p walnInRound paid : ℕ} {investors : List InvestorRecord} (hp : 0 < p)
    (hmul : ∀ r ∈ investors, r.usdcLockedCurrentRound * s < 2 ^ 128)
    (hfull : 0 < (investors.map (baseWaln s p)).sum)
    (hfull_lt : (investors.map (baseWaln s p)).sum < 2 ^ 128)
    (hpaid : 0 < paid) (hle : paid ≤ lockedUsdc investors) (hpool : poolUsdc investors < 2 ^ 64) :
    closePool s p walnInRound paid investors = (do
      let (closed, totals) ← committed (forMut
        (closeRecord (closeTerms s p walnInRound paid investors))
        (closeStart walnInRound paid investors) investors)
      ensure (totals.remainingUsdcRemainder = 0) .ArithmeticOverflow
      ensure (totals.totalUsdcSpent = paid) .ArithmeticOverflow
      return (closed, totals)) := by
  have hlocked := lockedUsdc_le_poolUsdc investors
  have hbase : (investors.map (baseSpent paid (lockedUsdc investors))).sum ≤ paid :=
    sum_share_le investors InvestorRecord.usdcLockedCurrentRound paid rfl
  have hcount : 0 < (lockSums s p investors).totalFullWaln := hfull
  have hcover : paid ≤ (lockSums s p investors).totalLockedUsdc := hle
  rw [closePool, sumLocks_total hp hmul hfull_lt (by omega), ok_bind, ensure_of _ hcount, ok_bind,
    ensure_of _ hpaid, ok_bind, ensure_of _ hcover, ok_bind,
    show (lockSums s p investors).totalLockedUsdc = lockedUsdc investors from rfl,
    sumBaseSpent_total (show 0 < lockedUsdc investors by omega)
    (fun r hr => paid_mul_lock_lt hle hpool hr) (by omega), ok_bind, checkedSub_of_le hbase]
  rfl

end Floor
