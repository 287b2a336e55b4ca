import FloorProgram.State
import FloorProgram.Core.ProRata

/-!
# Sums over the investor pool, and what may happen to a record

The USDC of the pool is spread over three fields of each record.  This file names the sums the
accounting is about and the two things that happen to all records at once.

* `Moved` — USDC moves between the deposit and the lock of a record.  Starting a round does it one
  way, cancelling it the other.
* `SettledRecord` — the lock is gone: part of it is committed, the rest is back in the deposit, and
  the record's lifetime wALN grew by what the round's entries hold for its investor.

`Settlement` collects what the two ways of settling a round have in common.
-/

namespace Floor

open Keyed Search

/-- The USDC a record stands for: deposited and locked. -/
def InvestorRecord.position (r : InvestorRecord) : ℕ := r.usdcDeposited + r.usdcLockedCurrentRound

/-- The USDC the pool stands for. -/
def poolUsdc (investors : List InvestorRecord) : ℕ := (investors.map InvestorRecord.position).sum

/-- The USDC locked by a pool. -/
def lockedUsdc (investors : List InvestorRecord) : ℕ :=
  (investors.map InvestorRecord.usdcLockedCurrentRound).sum

/-- The USDC its investors have spent. -/
def committedUsdc (investors : List InvestorRecord) : ℕ :=
  (investors.map InvestorRecord.usdcCommitted).sum

/-- The AAT volume in the pool. -/
def poolVolume (investors : List InvestorRecord) : ℕ := (investors.map InvestorRecord.aatVolume).sum

/-- The records that take part in the current round. -/
def participants (investors : List InvestorRecord) : List InvestorRecord :=
  investors.filter fun r => 0 < r.usdcLockedCurrentRound

/-- A participant is an investor with something locked. -/
@[simp] lemma mem_participants {investors : List InvestorRecord} {r : InvestorRecord} :
    r ∈ participants investors ↔ r ∈ investors ∧ 0 < r.usdcLockedCurrentRound := by
  simp [participants]

/-- A record with a lock is a participant. -/
lemma participants_cons_of_pos {r : InvestorRecord} (investors : List InvestorRecord)
    (h : 0 < r.usdcLockedCurrentRound) :
    participants (r :: investors) = r :: participants investors := by
  simp [participants, h]

/-- A record without a lock is no participant. -/
lemma participants_cons_of_zero {r : InvestorRecord} (investors : List InvestorRecord)
    (h : r.usdcLockedCurrentRound = 0) :
    participants (r :: investors) = participants investors := by
  simp [participants, h]

/-- What is locked is part of the pool. -/
lemma lockedUsdc_le_poolUsdc (investors : List InvestorRecord) :
    lockedUsdc investors ≤ poolUsdc investors :=
  List.sum_le_sum fun r _ => Nat.le_add_left r.usdcLockedCurrentRound r.usdcDeposited

/-- A position is part of the pool. -/
lemma position_le_poolUsdc {investors : List InvestorRecord} {r : InvestorRecord}
    (hr : r ∈ investors) : r.position ≤ poolUsdc investors :=
  List.single_le_sum (fun _ _ => Nat.zero_le _) _ (List.mem_map_of_mem hr)

/-- A lock is part of what is locked. -/
lemma lock_le_lockedUsdc {investors : List InvestorRecord} {r : InvestorRecord}
    (hr : r ∈ investors) : r.usdcLockedCurrentRound ≤ lockedUsdc investors :=
  List.single_le_sum (fun _ _ => Nat.zero_le _) _ (List.mem_map_of_mem hr)

/-- Nothing is locked exactly when no record has a lock. -/
lemma lockedUsdc_eq_zero {investors : List InvestorRecord} :
    lockedUsdc investors = 0 ↔ ∀ r ∈ investors, r.usdcLockedCurrentRound = 0 := by
  simp [lockedUsdc, List.sum_eq_zero_iff]

/-- Only participants contribute to the locks. -/
lemma sum_participants {investors : List InvestorRecord} (f : InvestorRecord → ℕ)
    (h0 : ∀ r, r.usdcLockedCurrentRound = 0 → f r = 0) :
    ((participants investors).map f).sum = (investors.map f).sum := by
  induction investors with
  | nil => rfl
  | cons r investors ih =>
      rcases Nat.eq_zero_or_pos r.usdcLockedCurrentRound with h | h
      · simpa [participants, h, h0 r h] using ih
      · simpa [participants, h] using ih

/-! ## Moving USDC inside a record -/

/-- USDC moved between the deposit and the lock of one record, and nothing else changed. -/
structure Moved (r r' : InvestorRecord) : Prop where
  investor : r'.investor = r.investor
  usdcCommitted : r'.usdcCommitted = r.usdcCommitted
  walnPurchasedTotal : r'.walnPurchasedTotal = r.walnPurchasedTotal
  aatVolume : r'.aatVolume = r.aatVolume
  usdcUnlockTs : r'.usdcUnlockTs = r.usdcUnlockTs
  usdc : r'.position = r.position

lemma Moved.refl (r : InvestorRecord) : Moved r r := ⟨rfl, rfl, rfl, rfl, rfl, rfl⟩

/-- What moved can move back. -/
lemma Moved.symm {r r' : InvestorRecord} (h : Moved r r') : Moved r' r :=
  ⟨h.investor.symm, h.usdcCommitted.symm, h.walnPurchasedTotal.symm, h.aatVolume.symm,
    h.usdcUnlockTs.symm, h.usdc.symm⟩

/-- Two moves are one. -/
lemma Moved.trans {r r' r'' : InvestorRecord} (h : Moved r r') (h' : Moved r' r'') : Moved r r'' :=
  ⟨h'.investor.trans h.investor, h'.usdcCommitted.trans h.usdcCommitted,
    h'.walnPurchasedTotal.trans h.walnPurchasedTotal, h'.aatVolume.trans h.aatVolume,
    h'.usdcUnlockTs.trans h.usdcUnlockTs, h'.usdc.trans h.usdc⟩

lemma forall₂_moved_refl (l : List InvestorRecord) : List.Forall₂ Moved l l :=
  List.forall₂_same.mpr fun r _ => Moved.refl r

lemma forall₂_moved_symm {l l' : List InvestorRecord} (h : List.Forall₂ Moved l l') :
    List.Forall₂ Moved l' l := (h.imp fun _ _ hm => hm.symm).flip

lemma forall₂_moved_trans {l l' l'' : List InvestorRecord} (h : List.Forall₂ Moved l l')
    (h' : List.Forall₂ Moved l' l'') : List.Forall₂ Moved l l'' := by
  induction h generalizing l'' with
  | nil => exact h'
  | cons hr _ ih =>
      cases h' with
      | cons hr' hl' => exact .cons (hr.trans hr') (ih hl')

/-! ## Settling a record -/

/-- The wALN the entries hold for an investor. -/
def amountOf (entries : List InvestorAlloc) (k : Pubkey) : ℕ :=
  valueOf InvestorAlloc.investor InvestorAlloc.walnAmount k entries

/-- The first entry of a key is what the key has. -/
@[simp] lemma amountOf_cons_self (a : InvestorAlloc) (entries : List InvestorAlloc) :
    amountOf (a :: entries) a.investor = a.walnAmount := by
  simp [amountOf, valueOf, lookup]

/-- An entry of another key does not count. -/
lemma amountOf_cons_of_ne {a : InvestorAlloc} {k : Pubkey} (entries : List InvestorAlloc)
    (h : a.investor ≠ k) : amountOf (a :: entries) k = amountOf entries k := by
  simp [amountOf, valueOf, lookup, h]

/-- A key without an entry has nothing. -/
lemma amountOf_of_forall_ne {entries : List InvestorAlloc} {k : Pubkey}
    (h : ∀ a ∈ entries, a.investor ≠ k) : amountOf entries k = 0 := valueOf_of_forall_ne h

/-- The wALN the entries hold together. -/
def entriesWaln (entries : List InvestorAlloc) : ℕ := (entries.map InvestorAlloc.walnAmount).sum

/-- One record at a settlement. -/
structure SettledRecord (entries : List InvestorAlloc) (r r' : InvestorRecord) : Prop where
  investor : r'.investor = r.investor
  aatVolume : r'.aatVolume = r.aatVolume
  usdcUnlockTs : r'.usdcUnlockTs = r.usdcUnlockTs
  unlocked : r'.usdcLockedCurrentRound = 0
  usdc : r'.usdcDeposited + r'.usdcCommitted = r.position + r.usdcCommitted
  walnPurchasedTotal : r'.walnPurchasedTotal = r.walnPurchasedTotal + amountOf entries r.investor

/-- What the two ways of settling a round have in common: `usdc` is charged in total, and the
entries, sorted and positive, belong to the participants. -/
structure Settlement (investors investors' : List InvestorRecord) (entries : List InvestorAlloc)
    (usdc : ℕ) : Prop where
  records : List.Forall₂ (SettledRecord entries) investors investors'
  charged : committedUsdc investors' = committedUsdc investors + usdc
  sorted : StrictSorted InvestorAlloc.investor entries
  positive : ∀ a ∈ entries, 0 < a.walnAmount
  keys : (entries.map InvestorAlloc.investor).Perm
    ((participants investors).map InvestorRecord.investor)

/-- A charge is covered by the pool, and what is not charged stays. -/
lemma Settlement.poolUsdc_eq {investors investors' : List InvestorRecord}
    {entries : List InvestorAlloc} {usdc : ℕ} (h : Settlement investors investors' entries usdc) :
    poolUsdc investors = poolUsdc investors' + usdc := by
  have hsum : ((investors'.map fun r => r.usdcDeposited + r.usdcCommitted)).sum
      = (investors.map fun r => r.position + r.usdcCommitted).sum :=
    congrArg List.sum (map_eq_of_forall₂ h.records fun _ _ hr => hr.usdc)
  have hpos : poolUsdc investors' = (investors'.map InvestorRecord.usdcDeposited).sum := by
    have : ∀ r ∈ investors', r.position = r.usdcDeposited := by
      intro r hr
      obtain ⟨r₀, -, hr₀⟩ := exists_of_forall₂_right h.records hr
      rw [InvestorRecord.position, hr₀.unlocked, Nat.add_zero]
    exact congrArg List.sum (List.map_congr_left this)
  have hcharged := h.charged
  rw [List.sum_map_add, List.sum_map_add] at hsum
  simp only [committedUsdc, poolUsdc] at hcharged hpos hsum ⊢
  omega

/-- A settlement leaves nothing locked. -/
lemma Settlement.unlocked {investors investors' : List InvestorRecord}
    {entries : List InvestorAlloc} {usdc : ℕ} (h : Settlement investors investors' entries usdc) :
    ∀ r ∈ investors', r.usdcLockedCurrentRound = 0 := by
  intro r hr
  obtain ⟨_, -, hr₀⟩ := exists_of_forall₂_right h.records hr
  exact hr₀.unlocked

end Floor
