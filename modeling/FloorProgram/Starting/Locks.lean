import FloorProgram.Lemmas.StartRound
import Mathlib.Tactic.Linarith

/-!
# What the participants lock

The participants of a round lock their shares of the cap.  The shares are rounded down; the gap that
is left goes to one participant, if there is one with that much left (`executeRoundStart_outcome`).

`round_start_moves_within_records` says what this does to each record.  `locks_fill_cap` says when
the locks come to the cap.  Every participant has deposited half the cap, so for nobody to have the
gap left all shares have to be close to half the cap, and there is room for two such shares only.
-/

namespace Floor

open Checked Loop ProRata

/-! ## The outcome, slot by slot -/

/-- A slot after the start; the flag says whether it takes the gap. -/
def startedRecord (cap volume gap : ℕ) (absorbs : Bool) (s : Slot) : InvestorRecord :=
  if absorbs then withGap gap (lockedSlot cap volume s).2 else (lockedSlot cap volume s).2

/-- The units of the cap that the shares of the flagged slots leave over. -/
def gapOf (cap volume : ℕ) (slots : List Slot) : ℕ :=
  cap - flaggedSum (fun r => share cap volume r.aatVolume) slots

/-- The flagged slots that have the gap left after locking their share. -/
def CanAbsorb (cap volume : ℕ) (slots : List Slot) (s : Slot) : Prop :=
  s.1 = true ∧ share cap volume s.2.aatVolume + gapOf cap volume slots ≤ s.2.usdcDeposited

instance (cap volume : ℕ) (slots : List Slot) : DecidablePred (CanAbsorb cap volume slots) :=
  fun _ => inferInstanceAs (Decidable (_ ∧ _))

lemma getElem?_replaced {α : Type} (pre post : List α) (x y : α) (i : ℕ) :
    (pre ++ y :: post)[i]?
      = (pre ++ x :: post)[i]?.map fun a => if pre.length = i then y else a := by
  rcases Nat.lt_trichotomy i pre.length with hlt | rfl | hgt
  · have hne : ¬ pre.length = i := by omega
    simp [List.getElem?_append_left hlt, hne]
  · simp
  · have hne : ¬ pre.length = i := by omega
    obtain ⟨j, rfl⟩ := Nat.exists_eq_add_of_lt hgt
    have hj : pre.length + j + 1 - pre.length = j + 1 := by omega
    simp [List.getElem?_append_right (show pre.length ≤ pre.length + j + 1 by omega), hj, hne]

lemma lockedSlot_deposited {cap volume : ℕ} {s : Slot} (hs : s.1 = true) :
    (lockedSlot cap volume s).2.usdcDeposited
      = s.2.usdcDeposited - share cap volume s.2.aatVolume := by
  simp [lockedSlot, hs]

lemma lockedSlot_locked {cap volume : ℕ} {s : Slot} (hs : s.1 = true) :
    (lockedSlot cap volume s).2.usdcLockedCurrentRound = share cap volume s.2.aatVolume := by
  simp [lockedSlot, hs]

@[simp] lemma lockedSlot_fst (cap volume : ℕ) (s : Slot) : (lockedSlot cap volume s).1 = s.1 := by
  rw [lockedSlot]
  split_ifs with hs
  · exact hs.symm
  · rfl

/-- **The outcome of a successful start.**  The slots of the elimination lock their shares, and
either one slot takes the gap on top, or there is no gap, or no slot that could take it. -/
theorem executeRoundStart_outcome {investors investors' : List InvestorRecord}
    {size price d cap volume locked : ℕ} (hcap : size * price / 10 ^ d = cap)
    (h : executeRoundStart investors size price d = (investors', .ok (volume, locked))) :
    ∃ (slots : List Slot) (absorber : Option ℕ),
      let gap := gapOf cap volume slots
      selectEligible investors size price d = .ok (cap, slots, volume) ∧
      investors' = slots.mapIdx
        (fun i s => startedRecord cap volume gap (decide (absorber = some i)) s) ∧
      (absorber = none → locked + gap = cap ∧
        (gap = 0 ∨ ∀ s ∈ slots, ¬ CanAbsorb cap volume slots s)) ∧
      (∀ i, absorber = some i → ∃ s, slots[i]? = some s ∧ CanAbsorb cap volume slots s ∧
        0 < gap ∧ locked = cap) := by
  obtain ⟨cap', slots, slots', hsel, hlock, rfl⟩ := executeRoundStart_split h
  obtain ⟨⟨-, hcap', -⟩, -, hel, hvol, -⟩ := selectEligible_ok hsel
  obtain rfl : cap = cap' := hcap.symm.trans hcap'
  have haff : ∀ s ∈ slots, s.1 = true → Affordable cap volume s.2 :=
    fun s hs hs1 => (hel s hs hs1).2
  obtain ⟨hbase, ⟨rfl, rfl, hnone⟩ | ⟨pre, r, post, hsplit, hlt, hle, rfl, hfull⟩⟩ :=
    lockEligible_ok haff hvol hlock
  · refine ⟨slots, none, hsel, ?_, fun _ => ⟨by rw [gapOf]; omega, ?_⟩, by simp⟩
    · apply List.ext_getElem?
      intro i
      simp only [List.getElem?_map, List.getElem?_mapIdx, Option.map_map]
      congr 1
    · rcases hnone with h0 | hnone
      · exact .inl (by rw [gapOf]; omega)
      · refine .inr fun s hs hcan => ?_
        have := hnone _ (List.mem_map_of_mem hs) (by rw [lockedSlot_fst]; exact hcan.1)
        rw [lockedSlot_deposited hcan.1] at this
        have := hcan.2
        rw [gapOf] at this
        omega
  · have hi : (slots.map (lockedSlot cap volume))[pre.length]?
        = some (true, r) := by rw [hsplit]; simp
    rw [List.getElem?_map] at hi
    obtain ⟨s, hs, hsr⟩ := Option.map_eq_some_iff.mp hi
    have hs1 : s.1 = true := by rw [← lockedSlot_fst cap volume s, hsr]
    have hsd : r.usdcDeposited
        = s.2.usdcDeposited - share cap volume s.2.aatVolume := by
      rw [← lockedSlot_deposited hs1, hsr]
    have hshare := (haff s (List.mem_of_getElem? hs) hs1).2
    refine ⟨slots, some pre.length, hsel, ?_, by simp, ?_⟩
    · apply List.ext_getElem?
      intro i
      rw [List.getElem?_map, getElem?_replaced pre post (true, r), ← hsplit, List.getElem?_mapIdx,
        List.getElem?_map, Option.map_map, Option.map_map]
      by_cases hpi : pre.length = i
      · subst hpi
        simp [hs, startedRecord, hsr, gapOf]
      · simp [startedRecord, hpi, Function.comp_def]
    · rintro i hi
      obtain rfl := Option.some.inj hi
      refine ⟨s, hs, ⟨hs1, ?_⟩, by rw [gapOf]; omega, hfull⟩
      rw [gapOf]
      omega

/-! ## Record by record -/

/-- What the start makes of a slot whose lock was zero.  USDC moves from the deposit to the lock and
nothing else changes.  A slot that is not eligible is untouched; an eligible one locks its share,
which is at least one unit, or its share and the gap. -/
structure StartedFrom (cap volume gap : ℕ) (s : Slot) (r : InvestorRecord) : Prop where
  sum_eq : r.usdcDeposited + r.usdcLockedCurrentRound = s.2.usdcDeposited
  frame : r = { s.2 with
    usdcDeposited := r.usdcDeposited
    usdcLockedCurrentRound := r.usdcLockedCurrentRound }
  ineligible : s.1 = false → r = s.2
  eligible : s.1 = true → 1 ≤ share cap volume s.2.aatVolume ∧
    (r.usdcLockedCurrentRound = share cap volume s.2.aatVolume ∨
      r.usdcLockedCurrentRound = share cap volume s.2.aatVolume + gap)

/-- The slot at `i` is eligible and locked more than its share. -/
def Absorbs (cap volume : ℕ) (slots : List Slot) (investors' : List InvestorRecord) (i : ℕ) :
    Prop :=
  ∃ s r, slots[i]? = some s ∧ investors'[i]? = some r ∧ s.1 = true ∧
    share cap volume s.2.aatVolume < r.usdcLockedCurrentRound

lemma startedRecord_locked {cap volume gap : ℕ} {absorbs : Bool} {s : Slot} (hs : s.1 = true) :
    (startedRecord cap volume gap absorbs s).usdcLockedCurrentRound
      = share cap volume s.2.aatVolume + if absorbs then gap else 0 := by
  cases absorbs <;> simp [startedRecord, withGap, lockedSlot, hs]

lemma startedFrom_startedRecord {cap volume gap : ℕ} {absorbs : Bool} {s : Slot}
    (hzero : s.2.usdcLockedCurrentRound = 0) (haff : s.1 = true → Affordable cap volume s.2)
    (hcan : absorbs = true →
      s.1 = true ∧ share cap volume s.2.aatVolume + gap ≤ s.2.usdcDeposited) :
    StartedFrom cap volume gap s (startedRecord cap volume gap absorbs s) := by
  obtain ⟨el, r⟩ := s
  cases el with
  | false =>
      have habs : absorbs = false := Bool.eq_false_iff.mpr fun ha => by simpa using (hcan ha).1
      subst habs
      refine ⟨?_, rfl, fun _ => rfl, by simp⟩
      simpa [startedRecord, lockedSlot] using hzero
  | true =>
      obtain ⟨hpos, hle⟩ := haff rfl
      have hlock : (startedRecord cap volume gap absorbs (true, r)).usdcLockedCurrentRound
          = share cap volume r.aatVolume + if absorbs then gap else 0 := startedRecord_locked rfl
      cases absorbs with
      | false =>
          refine ⟨?_, rfl, by simp, fun _ => ⟨hpos, .inl hlock⟩⟩
          simp only [startedRecord, lockedSlot, if_true]
          exact Nat.sub_add_cancel hle
      | true =>
          have hroom : share cap volume r.aatVolume + gap ≤ r.usdcDeposited := (hcan rfl).2
          refine ⟨?_, rfl, by simp, fun _ => ⟨hpos, .inr hlock⟩⟩
          simp only [startedRecord, withGap, lockedSlot, if_true]
          omega

/-- Every record is as `StartedFrom` describes, if the slot that takes the gap can. -/
lemma forall₂_startedFrom {cap volume : ℕ} {slots : List Slot} {absorber : Option ℕ}
    (hzero : ∀ s ∈ slots, s.2.usdcLockedCurrentRound = 0)
    (haff : ∀ s ∈ slots, s.1 = true → Affordable cap volume s.2)
    (hcan : ∀ i, absorber = some i → ∃ s, slots[i]? = some s ∧ CanAbsorb cap volume slots s) :
    List.Forall₂ (StartedFrom cap volume (gapOf cap volume slots)) slots
      (slots.mapIdx fun i s =>
        startedRecord cap volume (gapOf cap volume slots) (decide (absorber = some i)) s) := by
  refine List.forall₂_iff_get.mpr ⟨by simp, fun i hi hi' => ?_⟩
  have hmem : slots.get ⟨i, hi⟩ ∈ slots := slots.get_mem _
  simp only [List.get_eq_getElem, List.getElem_mapIdx] at hmem ⊢
  refine startedFrom_startedRecord (hzero _ hmem) (haff _ hmem) fun ha => ?_
  obtain ⟨s, hs, habsorbs⟩ := hcan i (of_decide_eq_true ha)
  rw [List.getElem?_eq_getElem hi, Option.some.injEq] at hs
  rw [hs]
  exact habsorbs

/-- The shares of the eligible slots miss the cap by less than one unit each. -/
lemma gapOf_lt {cap volume : ℕ} {slots : List Slot}
    (hvol : flaggedSum (·.aatVolume) slots = volume) (hpos : 0 < volume) :
    gapOf cap volume slots < flaggedCount slots := by
  have hle : flaggedSum (fun r => share cap volume r.aatVolume) slots ≤ cap :=
    sum_share_le (slots.filter Prod.fst) (fun s => s.2.aatVolume) cap hvol
  have hlt : cap < flaggedSum (fun r => share cap volume r.aatVolume) slots + flaggedCount slots :=
    amount_lt_sum_share (slots.filter Prod.fst) (fun s => s.2.aatVolume) cap hvol hpos
  rw [gapOf]
  omega

/-- A successful start, slot by slot. -/
lemma executeRoundStart_startedFrom {investors investors' : List InvestorRecord}
    {size price d volume locked : ℕ} (hzero : ∀ r ∈ investors, r.usdcLockedCurrentRound = 0)
    (h : executeRoundStart investors size price d = (investors', .ok (volume, locked))) :
    ∃ slots, slots.map Prod.snd = investors ∧ flaggedSum (·.aatVolume) slots = volume ∧
      0 < volume ∧ List.Forall₂ (StartedFrom (size * price / 10 ^ d) volume
        (gapOf (size * price / 10 ^ d) volume slots)) slots investors' := by
  obtain ⟨slots, absorber, hsel, rfl, -, hsome⟩ := executeRoundStart_outcome rfl h
  obtain ⟨-, rfl, hel, hvol, hpos⟩ := selectEligible_ok hsel
  refine ⟨slots, rfl, hvol, hpos, forall₂_startedFrom ?_ ?_ ?_⟩
  · exact fun s hs => hzero _ (List.mem_map_of_mem hs)
  · exact fun s hs hs1 => (hel s hs hs1).2
  · intro i hi
    obtain ⟨s, hs, hcan, -⟩ := hsome i hi
    exact ⟨s, hs, hcan⟩

/-- The participants are the eligible slots, and each locks at least its share. -/
lemma flagged_of_startedFrom {cap volume gap : ℕ} {slots : List Slot}
    {investors : List InvestorRecord}
    (h : List.Forall₂ (StartedFrom cap volume gap) slots investors)
    (hzero : ∀ s ∈ slots, s.2.usdcLockedCurrentRound = 0) :
    flaggedCount slots = (participants investors).length ∧
      flaggedSum (fun r => share cap volume r.aatVolume) slots ≤ lockedUsdc investors := by
  induction h with
  | nil => simp [flaggedCount, flaggedSum, participants, lockedUsdc]
  | @cons s r slots investors hs _ ih =>
      obtain ⟨hcount, hsum⟩ := ih fun s hs => hzero s (by simp [hs])
      simp only [flaggedCount, lockedUsdc] at hcount hsum ⊢
      cases hflag : s.1 with
      | false =>
          have hlock : r.usdcLockedCurrentRound = 0 := hs.ineligible hflag ▸ hzero s (by simp)
          simp [hflag, participants_cons_of_zero _ hlock, hcount, hlock, hsum]
      | true =>
          obtain ⟨hpos, hlock⟩ := hs.eligible hflag
          have hshare : share cap volume s.2.aatVolume ≤ r.usdcLockedCurrentRound := by omega
          simp only [List.filter_cons, hflag, if_true, List.length_cons, hcount,
            participants_cons_of_pos _ (hpos.trans hshare), flaggedSum_cons, List.map_cons,
            List.sum_cons, true_and]
          omega

/-- The locks of a round miss its cap by less than one unit per participant. -/
lemma executeRoundStart_cap_lt {investors investors' : List InvestorRecord}
    {size price d volume locked : ℕ} (hzero : ∀ r ∈ investors, r.usdcLockedCurrentRound = 0)
    (h : executeRoundStart investors size price d = (investors', .ok (volume, locked))) :
    size * price / 10 ^ d < lockedUsdc investors' + (participants investors').length := by
  obtain ⟨slots, rfl, hvol, hpos, hstarted⟩ := executeRoundStart_startedFrom hzero h
  obtain ⟨hcount, hsum⟩ :=
    flagged_of_startedFrom hstarted fun s hs => hzero _ (List.mem_map_of_mem hs)
  have hgap : gapOf (size * price / 10 ^ d) volume slots < flaggedCount slots :=
    gapOf_lt hvol hpos
  rw [gapOf] at hgap
  omega

/-- A slot absorbs exactly when it is the one the outcome names. -/
lemma absorbs_iff {cap volume gap i : ℕ} {slots : List Slot} {absorber : Option ℕ}
    (hgap : absorber ≠ none → 0 < gap)
    (hflag : ∀ i, absorber = some i → ∃ s, slots[i]? = some s ∧ s.1 = true) :
    Absorbs cap volume slots
        (slots.mapIdx fun i s => startedRecord cap volume gap (decide (absorber = some i)) s) i ↔
      absorber = some i := by
  constructor
  · rintro ⟨s, r, hs, hr, hs1, hlt⟩
    rw [List.getElem?_mapIdx, hs, Option.map_some, Option.some.injEq] at hr
    subst hr
    by_contra hne
    simp [startedRecord_locked hs1, hne] at hlt
  · intro habs
    obtain ⟨s, hs, hs1⟩ := hflag i habs
    refine ⟨s, _, hs, by rw [List.getElem?_mapIdx, hs, Option.map_some], hs1, ?_⟩
    have := hgap (by simp [habs])
    simpa [startedRecord_locked hs1, habs] using this

/-- **Round start moves USDC only within each record.**  Let all locks be zero and let the start
succeed, with `slots` the pool and the final flags of the elimination.  Every record is as
`StartedFrom` describes.  The gap is less than the number of eligible slots, at most one slot takes
it, and one does exactly when there is a gap and an eligible slot that has it left.  The returned
total is the sum of all locks and at most the cap. -/
theorem round_start_moves_within_records {investors investors' : List InvestorRecord}
    {size price d volume locked : ℕ}
    (hzero : ∀ r ∈ investors, r.usdcLockedCurrentRound = 0)
    (h : executeRoundStart investors size price d = (investors', .ok (volume, locked))) :
    let cap := size * price / 10 ^ d
    ∃ slots, selectEligible investors size price d = .ok (cap, slots, volume) ∧
      slots.map Prod.snd = investors ∧ flaggedSum (·.aatVolume) slots = volume ∧
      List.Forall₂ (StartedFrom cap volume (gapOf cap volume slots)) slots investors' ∧
      gapOf cap volume slots < flaggedCount slots ∧
      (∀ i j, Absorbs cap volume slots investors' i → Absorbs cap volume slots investors' j →
        i = j) ∧
      ((∃ i, Absorbs cap volume slots investors' i) ↔
        0 < gapOf cap volume slots ∧ ∃ s ∈ slots, CanAbsorb cap volume slots s) ∧
      lockedUsdc investors' = locked ∧ locked ≤ cap := by
  intro cap
  have hcap : size * price / 10 ^ d = cap := rfl
  clear_value cap
  have hstarted := executeRoundStart_ok hzero h
  rw [hcap] at hstarted
  obtain ⟨slots, absorber, hsel, rfl, hnone, hsome⟩ := executeRoundStart_outcome hcap h
  obtain ⟨-, rfl, hel, hvol, hpos⟩ := selectEligible_ok hsel
  have hz : ∀ s ∈ slots, s.2.usdcLockedCurrentRound = 0 :=
    fun s hs => hzero _ (List.mem_map_of_mem hs)
  have habs : ∀ i, Absorbs cap volume slots (slots.mapIdx fun i s =>
      startedRecord cap volume (gapOf cap volume slots) (decide (absorber = some i)) s) i ↔
      absorber = some i := by
    intro i
    refine absorbs_iff (fun hne => ?_) fun i hi => ?_
    · obtain ⟨i, hi⟩ := Option.ne_none_iff_exists'.mp hne
      obtain ⟨-, -, -, hgap, -⟩ := hsome i hi
      exact hgap
    · obtain ⟨s, hs, hcan, -⟩ := hsome i hi
      exact ⟨s, hs, hcan.1⟩
  refine ⟨slots, hsel, rfl, hvol, ?_, gapOf_lt hvol hpos, ?_, ?_, hstarted.locked_eq,
    hstarted.locked_le⟩
  · refine forall₂_startedFrom hz (fun s hs hs1 => (hel s hs hs1).2) fun i hi => ?_
    obtain ⟨s, hs, hcan, -⟩ := hsome i hi
    exact ⟨s, hs, hcan⟩
  · intro i j hi hj
    rw [habs] at hi hj
    simpa [hi] using hj
  · constructor
    · rintro ⟨i, hi⟩
      rw [habs] at hi
      obtain ⟨s, hs, hcan, hgap, -⟩ := hsome i hi
      exact ⟨hgap, s, List.mem_of_getElem? hs, hcan⟩
    · rintro ⟨hgap, s, hs, hcan⟩
      cases habsorber : absorber with
      | some i => exact ⟨i, habsorber ▸ (habs i).mpr habsorber⟩
      | none =>
          rcases (hnone habsorber).2 with h0 | hnobody
          · exact absurd h0 hgap.ne'
          · exact absurd hcan (hnobody s hs)

/-- Two investors whose shares of `100` are `33` and `66`. -/
def thirds : List InvestorRecord :=
  [{ InvestorRecord.empty 21 with usdcDeposited := 60, aatVolume := 1 },
   { InvestorRecord.empty 22 with usdcDeposited := 80, aatVolume := 2 }]

/-- The first of them takes the unit that is left. -/
theorem round_start_moves_within_records_thirds :
    ∃ investors' slots, executeRoundStart thirds 1000000000 100 9 = (investors', .ok (3, 100)) ∧
      slots.map Prod.snd = thirds ∧
      List.Forall₂ (StartedFrom 100 3 (gapOf 100 3 slots)) slots investors' ∧
      (∃ i, Absorbs 100 3 slots investors' i) ∧ lockedUsdc investors' = 100 := by
  have hsel : selectEligible thirds 1000000000 100 9
      = .ok (100, thirds.map fun r => (true, r), 3) := by decide +kernel
  have hstart : executeRoundStart thirds 1000000000 100 9
      = ((executeRoundStart thirds 1000000000 100 9).1, .ok (3, 100)) := by decide +kernel
  obtain ⟨slots, hslots, hmap, -, hfrom, -, -, habs, hlocked, -⟩ :=
    round_start_moves_within_records (by decide) hstart
  simp only [hsel, Except.ok.injEq, Prod.mk.injEq] at hslots
  obtain ⟨-, rfl, -⟩ := hslots
  refine ⟨_, _, hstart, hmap, hfrom, habs.mpr ⟨by decide, ?_⟩, hlocked⟩
  exact ⟨_, List.mem_map_of_mem (List.mem_cons_self), rfl, by decide⟩

/-! ## When the locks come to the cap -/

lemma count_mul_le_flaggedSum {f : InvestorRecord → ℕ} {k : ℕ} {slots : List Slot}
    (h : ∀ s ∈ slots, s.1 = true → k ≤ f s.2) :
    flaggedCount slots * k ≤ flaggedSum f slots := by
  have := List.card_nsmul_le_sum ((slots.filter Prod.fst).map fun s => f s.2) k (by
    simp only [List.mem_map, List.mem_filter]
    rintro x ⟨s, ⟨hs, hs1⟩, rfl⟩
    exact h s hs hs1)
  simpa [flaggedCount, flaggedSum] using this

lemma flaggedSum_congr {f g : InvestorRecord → ℕ} {slots : List Slot}
    (h : ∀ s ∈ slots, s.1 = true → f s.2 = g s.2) : flaggedSum f slots = flaggedSum g slots := by
  rw [flaggedSum, flaggedSum]
  congr 1
  refine List.map_congr_left fun s hs => ?_
  rw [List.mem_filter] at hs
  exact h s hs.1 hs.2

lemma flaggedSum_const (k : ℕ) (slots : List Slot) :
    flaggedSum (fun _ => k) slots = flaggedCount slots * k := by
  simp [flaggedSum, flaggedCount]

/-- Summands that are at least `k` and whose sum is no more than `k` each are `k`. -/
lemma eq_of_flaggedSum_le {f : InvestorRecord → ℕ} {k : ℕ} {slots : List Slot}
    (h : ∀ s ∈ slots, s.1 = true → k ≤ f s.2) (hsum : flaggedSum f slots ≤ flaggedCount slots * k)
    {s : Slot} (hs : s ∈ slots) (hs1 : s.1 = true) : f s.2 = k := by
  by_contra hne
  have hlt : k < f s.2 := lt_of_le_of_ne (h s hs hs1) (Ne.symm hne)
  have hstrict : flaggedSum (fun _ => k) slots < flaggedSum f slots := by
    refine List.sum_lt_sum _ _ (fun a ha => ?_) ⟨s, List.mem_filter.mpr ⟨hs, hs1⟩, hlt⟩
    rw [List.mem_filter] at ha
    exact h a ha.1 ha.2
  rw [flaggedSum_const] at hstrict
  omega

/-- Two participants whose deposits are used up and whose shares are both just under half of an odd
cap. -/
def HalfShares (cap volume : ℕ) (slots : List Slot) : Prop :=
  flaggedCount slots = 2 ∧ cap % 2 = 1 ∧ ∀ s ∈ slots, s.1 = true →
    s.2.usdcDeposited = (cap - 1) / 2 ∧ share cap volume s.2.aatVolume = (cap - 1) / 2

/-- With two half shares one unit is left and nobody has it. -/
lemma HalfShares.gap_eq {cap volume : ℕ} {slots : List Slot} (h : HalfShares cap volume slots) :
    gapOf cap volume slots = 1 ∧ ∀ s ∈ slots, ¬ CanAbsorb cap volume slots s := by
  obtain ⟨htwo, hodd, hhalf⟩ := h
  have hsum : flaggedSum (fun r => share cap volume r.aatVolume) slots
      = flaggedCount slots * ((cap - 1) / 2) := by
    rw [← flaggedSum_const]
    exact flaggedSum_congr fun s hs hs1 => (hhalf s hs hs1).2
  have hgap : gapOf cap volume slots = 1 := by
    rw [gapOf, hsum, htwo]
    omega
  refine ⟨hgap, fun s hs hcan => ?_⟩
  have hroom := hcan.2
  rw [hgap, (hhalf s hs hcan.1).1, (hhalf s hs hcan.1).2] at hroom
  omega

/-- At most `m + 2` units are missing, and `m + 3` shares each lie within that of half a cap of at
least `6 (m + 3)`: they do not fit under it. -/
lemma three_halves_lt {m q g : ℕ} (hg : g ≤ m + 2) (hq : 3 * (m + 3) ≤ q) :
    2 * q + 1 + (m + 2) * g < (m + 3) * (q + 1) := by
  have h1 : (m + 2) * g ≤ (m + 2) * (m + 2) := Nat.mul_le_mul_left _ hg
  nlinarith

/-- **Nobody has the gap left only with two half shares.** -/
lemma halfShares_of_unplaced {cap volume : ℕ} {slots : List Slot}
    (hvol : flaggedSum (·.aatVolume) slots = volume) (hpos : 0 < volume)
    (hel : ∀ s ∈ slots, s.1 = true → initiallyEligible cap s.2 = true ∧ Affordable cap volume s.2)
    (hsix : 6 * flaggedCount slots ≤ cap) (hgap : 0 < gapOf cap volume slots)
    (hnone : ∀ s ∈ slots, ¬ CanAbsorb cap volume slots s) : HalfShares cap volume slots := by
  have hlt : gapOf cap volume slots < flaggedCount slots := gapOf_lt hvol hpos
  have hbase : flaggedSum (fun r => share cap volume r.aatVolume) slots
      + gapOf cap volume slots = cap := by
    rw [gapOf] at hgap ⊢
    omega
  -- Half the cap is deposited and less than the share and the gap.
  have hhalf : ∀ s ∈ slots, s.1 = true →
      cap / 2 + 1 - gapOf cap volume slots ≤ share cap volume s.2.aatVolume := by
    intro s hs hs1
    have hdep : cap / 2 ≤ s.2.usdcDeposited := (of_decide_eq_true (hel s hs hs1).1).2.2
    have : ¬ share cap volume s.2.aatVolume + gapOf cap volume slots ≤ s.2.usdcDeposited :=
      fun hroom => hnone s hs ⟨hs1, hroom⟩
    omega
  have hsum : flaggedCount slots * (cap / 2 + 1 - gapOf cap volume slots)
      ≤ flaggedSum (fun r => share cap volume r.aatVolume) slots := count_mul_le_flaggedSum hhalf
  obtain ⟨k, hk⟩ : ∃ k, k + gapOf cap volume slots = cap / 2 + 1 :=
    ⟨cap / 2 + 1 - gapOf cap volume slots, by omega⟩
  rw [← hk, Nat.add_sub_cancel] at hsum hhalf
  have htwo : flaggedCount slots = 2 := by
    by_contra hne
    obtain ⟨m, hm⟩ : ∃ m, flaggedCount slots = m + 3 := ⟨flaggedCount slots - 3, by omega⟩
    have hfit := three_halves_lt (m := m) (q := cap / 2) (g := gapOf cap volume slots)
      (by omega) (by omega)
    rw [← hk] at hfit
    rw [hm] at hsum
    have hcap : cap ≤ 2 * (cap / 2) + 1 := by omega
    nlinarith
  rw [htwo] at hsum
  have hone : gapOf cap volume slots = 1 := by omega
  rw [hone] at hk hbase
  have hshare : ∀ s ∈ slots, s.1 = true → share cap volume s.2.aatVolume = k := by
    intro s hs hs1
    refine eq_of_flaggedSum_le (f := fun r => share cap volume r.aatVolume) hhalf ?_ hs hs1
    rw [htwo]
    omega
  refine ⟨htwo, by omega, fun s hs hs1 => ?_⟩
  have hle : share cap volume s.2.aatVolume ≤ s.2.usdcDeposited := (hel s hs hs1).2.2
  have hno : ¬ share cap volume s.2.aatVolume + gapOf cap volume slots ≤ s.2.usdcDeposited :=
    fun hroom => hnone s hs ⟨hs1, hroom⟩
  rw [hshare s hs hs1] at hle hno ⊢
  omega

/-- **The locks fill the round cap, with one exact exception.**  If the cap is at least six units a
participant, the locks come to the cap, except when there are two participants with half shares;
then they come to one unit less. -/
theorem locks_fill_cap {investors investors' : List InvestorRecord}
    {size price d volume locked : ℕ}
    (hzero : ∀ r ∈ investors, r.usdcLockedCurrentRound = 0)
    (h : executeRoundStart investors size price d = (investors', .ok (volume, locked))) :
    let cap := size * price / 10 ^ d
    ∃ slots, selectEligible investors size price d = .ok (cap, slots, volume) ∧
      lockedUsdc investors' = locked ∧
      (6 * flaggedCount slots ≤ cap →
        (HalfShares cap volume slots → locked = cap - 1) ∧
        (¬ HalfShares cap volume slots → locked = cap)) := by
  intro cap
  have hlocked := (executeRoundStart_ok hzero h).locked_eq
  have hcap : size * price / 10 ^ d = cap := rfl
  clear_value cap
  obtain ⟨slots, absorber, hsel, -, hnone, hsome⟩ := executeRoundStart_outcome hcap h
  obtain ⟨-, -, hel, hvol, hpos⟩ := selectEligible_ok hsel
  refine ⟨slots, hsel, hlocked, fun hsix => ⟨fun hhalf => ?_, fun hhalf => ?_⟩⟩
  · obtain ⟨hgap, hnobody⟩ := hhalf.gap_eq
    cases absorber with
    | none =>
        have hsum := (hnone rfl).1
        omega
    | some i =>
        obtain ⟨s, hs, hcan, -⟩ := hsome i rfl
        exact absurd hcan (hnobody s (List.mem_of_getElem? hs))
  · cases absorber with
    | none =>
        obtain ⟨hsum, h0 | hnobody⟩ := hnone rfl
        · omega
        rcases Nat.eq_zero_or_pos (gapOf cap volume slots) with h0 | hgap
        · omega
        · exact absurd (halfShares_of_unplaced hvol hpos hel hsix hgap hnobody) hhalf
    | some i =>
        obtain ⟨-, -, -, -, hfull⟩ := hsome i rfl
        exact hfull

/-- Two investors with equal volumes and a deposit of `6` each. -/
def halves : List InvestorRecord :=
  [{ InvestorRecord.empty 21 with usdcDeposited := 6, aatVolume := 1 },
   { InvestorRecord.empty 22 with usdcDeposited := 6, aatVolume := 1 }]

/-- A cap of `13` leaves a unit that neither can pay. -/
theorem locks_fill_cap_halves :
    ∃ slots, selectEligible halves 1000000000 13 9 = .ok (13, slots, 2) ∧
      6 * flaggedCount slots ≤ 13 ∧ HalfShares 13 2 slots ∧
      (executeRoundStart halves 1000000000 13 9).2 = .ok (2, 13 - 1) := by
  have hsel : selectEligible halves 1000000000 13 9
      = .ok (13, halves.map fun r => (true, r), 2) := by decide +kernel
  have hhalf : HalfShares 13 2 (halves.map fun r => (true, r)) := by
    exact ⟨by decide, by decide, by decide⟩
  obtain ⟨v, hv⟩ : ∃ v, executeRoundStart halves 1000000000 13 9
      = ((executeRoundStart halves 1000000000 13 9).1, .ok v) := ⟨(2, 12), by decide +kernel⟩
  obtain ⟨volume, locked⟩ := v
  obtain ⟨slots, hslots, -, hfill⟩ := locks_fill_cap (by decide) hv
  have heq := hslots.symm.trans hsel
  simp only [Except.ok.injEq, Prod.mk.injEq] at heq
  obtain ⟨-, rfl, rfl⟩ := heq
  have hlocked := (hfill (by decide)).1 hhalf
  refine ⟨_, hsel, by decide, hhalf, ?_⟩
  rw [hv, hlocked]
  decide

end Floor
