import FloorProgram.Starting.Eligibility
import FloorProgram.Starting.Locks

/-!
# The order of the slots does not matter

Removing an investor moves another one to a new slot, so the same investors may stand in any order
when a round starts.  The loops of `execute_round_start` go through the slots in order and stop at
the first overflow, and the gap goes to the first slot that can take it.

Each stage is first given a description that does not mention the order: a pass of the elimination
by `eliminate_succ`, the locks and the gap by `lockEligible_result`.  Nothing in these changes when
the slots are permuted, so the result of the start does not change either, nor who takes part
(`round_start_order_independent`).  Only the slot that takes the gap can be another one.
-/

namespace Floor

open Checked Loop ProRata

/-! ## Slots up to order -/

/-- The records, flagged by a predicate on records. -/
def tagged (p : InvestorRecord → Bool) (l : List InvestorRecord) : List Slot :=
  l.map fun r => (p r, r)

/-- Flags that are computed from the records move with them. -/
lemma tagged_perm {l₁ l₂ : List InvestorRecord} (h : l₁.Perm l₂) (p : InvestorRecord → Bool) :
    (tagged p l₁).Perm (tagged p l₂) := h.map _

/-- A pass over flags of a predicate restricts the predicate. -/
lemma map_keepSlot_tagged (cap V : ℕ) (p : InvestorRecord → Bool) (l : List InvestorRecord) :
    (tagged p l).map (keepSlot cap V) = tagged (fun r => p r && decide (Affordable cap V r)) l := by
  rw [tagged, tagged, List.map_map]
  rfl

section Perm

variable {slots₁ slots₂ : List Slot} {cap : ℕ}

/-- The sum over the flagged records does not see their order. -/
lemma flaggedSum_perm (h : slots₁.Perm slots₂) (f : InvestorRecord → ℕ) :
    flaggedSum f slots₁ = flaggedSum f slots₂ := ((h.filter _).map _).sum_eq

/-- A flagged record counts for no more than the whole sum. -/
lemma le_flaggedSum {f : InvestorRecord → ℕ} {slots : List Slot} {s : Slot} (hs : s ∈ slots)
    (hs1 : s.1 = true) : f s.2 ≤ flaggedSum f slots :=
  List.single_le_sum (fun _ _ => Nat.zero_le _) _
    (List.mem_map_of_mem (f := fun s : Slot => f s.2) (List.mem_filter.mpr ⟨hs, hs1⟩))

/-- The bound on the volumes does not see the order. -/
lemma passFits_perm (h : slots₁.Perm slots₂) : PassFits cap slots₁ ↔ PassFits cap slots₂ :=
  forall_congr' fun _ => imp_congr_left h.mem_iff

/-- Whether a pass drops anybody does not depend on the order. -/
lemma drops_perm (h : slots₁.Perm slots₂) (V : ℕ) : Drops cap V slots₁ ↔ Drops cap V slots₂ :=
  exists_congr fun _ => and_congr_left' h.mem_iff

/-- The gap of the locks does not see the order. -/
lemma gapOf_perm (h : slots₁.Perm slots₂) (volume : ℕ) :
    gapOf cap volume slots₁ = gapOf cap volume slots₂ := by
  rw [gapOf, gapOf, flaggedSum_perm h]

/-- Whether anybody can absorb the gap does not depend on the order. -/
lemma exists_canAbsorb_perm (h : slots₁.Perm slots₂) (volume : ℕ) :
    (∃ s ∈ slots₁, CanAbsorb cap volume slots₁ s) ↔
      ∃ s ∈ slots₂, CanAbsorb cap volume slots₂ s := by
  simp only [CanAbsorb, gapOf_perm h, h.mem_iff]

end Perm

/-! ## The elimination -/

/-- Both orders end with the same error, or both with the same participants, whose products fit. -/
def SameSelection (cap : ℕ) (l₁ l₂ : List InvestorRecord)
    (x₁ x₂ : Except TxError (List Slot × ℕ)) : Prop :=
  (∃ e, x₁ = .error e ∧ x₂ = .error e) ∨
    ∃ p V, PassFits cap (tagged p l₂) ∧ x₁ = .ok (tagged p l₁, V) ∧ x₂ = .ok (tagged p l₂, V)

section SameSelection

variable {cap : ℕ} {l₁ l₂ : List InvestorRecord}

/-- Equal errors are the same selection. -/
lemma sameSelection_error (e : TxError) : SameSelection cap l₁ l₂ (.error e) (.error e) :=
  .inl ⟨e, rfl, rfl⟩

/-- A branch on equivalent conditions keeps two selections the same. -/
lemma sameSelection_ite {c₁ c₂ : Prop} [Decidable c₁] [Decidable c₂] (hc : c₁ ↔ c₂)
    {x₁ x₂ y₁ y₂ : Except TxError (List Slot × ℕ)} (hx : c₂ → SameSelection cap l₁ l₂ x₁ x₂)
    (hy : ¬ c₂ → SameSelection cap l₁ l₂ y₁ y₂) :
    SameSelection cap l₁ l₂ (if c₁ then x₁ else y₁) (if c₂ then x₂ else y₂) := by
  by_cases h : c₂
  · rw [if_pos h, if_pos (hc.mpr h)]
    exact hx h
  · rw [if_neg h, if_neg (mt hc.mp h)]
    exact hy h

/-- **The elimination does not depend on the order.**  By induction on the passes. -/
lemma eliminate_perm (h : l₁.Perm l₂) : ∀ (fuel : ℕ) (p : InvestorRecord → Bool),
    SameSelection cap l₁ l₂ (eliminate cap fuel (tagged p l₁)) (eliminate cap fuel (tagged p l₂))
  | 0, p => sameSelection_error _
  | fuel + 1, p => by
      have hslots := tagged_perm h p
      rw [eliminate_succ, eliminate_succ, flaggedSum_perm hslots]
      refine sameSelection_ite Iff.rfl (fun _ => sameSelection_error _) fun _ => ?_
      refine sameSelection_ite Iff.rfl (fun _ => sameSelection_error _) fun _ => ?_
      refine sameSelection_ite (not_congr (passFits_perm hslots)) (fun _ => sameSelection_error _)
        fun hfit => ?_
      refine sameSelection_ite (drops_perm hslots _) (fun _ => ?_) fun _ => ?_
      · rw [map_keepSlot_tagged, map_keepSlot_tagged]
        exact eliminate_perm h fuel _
      · exact .inr ⟨p, _, not_not.mp hfit, rfl, rfl⟩

/-- The selection starts from the flags of those who are eligible at first. -/
lemma selectEligible_tagged (l : List InvestorRecord) (size price d : ℕ) :
    selectEligible l size price d = (do
      let cap ← roundCapUsdc size price d
      ensure (0 < cap) .InvalidParameter
      require (l.length ≤ MAX_INVESTORS) .Panicked
      let r ← eliminate cap (l.length + 1) (tagged (initiallyEligible cap) l)
      .ok (cap, r.1, r.2)) := by
  simp only [selectEligible, tagged, List.length_map]
  rfl

/-- The read-only half of the start: the same error, or the same participants. -/
lemma selectEligible_perm (h : l₁.Perm l₂) (size price d : ℕ) :
    (∃ e, selectEligible l₁ size price d = .error e ∧ selectEligible l₂ size price d = .error e) ∨
    ∃ cap p V, PassFits cap (tagged p l₂) ∧
      selectEligible l₁ size price d = .ok (cap, tagged p l₁, V) ∧
      selectEligible l₂ size price d = .ok (cap, tagged p l₂, V) := by
  rw [selectEligible_tagged, selectEligible_tagged, h.length_eq]
  cases roundCapUsdc size price d with
  | error e => exact .inl ⟨e, rfl, rfl⟩
  | ok cap =>
      simp only [ok_bind]
      cases ensure (0 < cap) .InvalidParameter with
      | error e => exact .inl ⟨e, rfl, rfl⟩
      | ok u =>
          simp only [ok_bind]
          cases require (l₂.length ≤ MAX_INVESTORS) TxError.Panicked with
          | error e => exact .inl ⟨e, rfl, rfl⟩
          | ok u =>
              simp only [ok_bind]
              have hpasses : SameSelection cap l₁ l₂ _ _ :=
                eliminate_perm h (l₂.length + 1) (initiallyEligible cap)
              rcases hpasses with ⟨e, h₁, h₂⟩ | ⟨p, V, hfit, h₁, h₂⟩
              · rw [h₁, h₂]
                exact .inl ⟨e, rfl, rfl⟩
              · rw [h₁, h₂]
                exact .inr ⟨cap, p, V, hfit, rfl, rfl⟩

end SameSelection

/-! ## The locks and the gap -/

/-- One lock keeps the total a machine number. -/
lemma lockShare_lt {cap total t t' : ℕ} {s s' : Slot} (ht : t < 2 ^ 64)
    (h : lockShare cap total t s = (s', .ok t')) : t' < 2 ^ 64 := by
  rw [lockShare] at h
  split_ifs at h
  · simp only [Except.ok.injEq, Prod.mk.injEq] at h
    exact h.2 ▸ ht
  · split at h
    · simp at h
    · dsimp only at h
      split_ifs at h
      · simp only [Except.ok.injEq, Prod.mk.injEq] at h
        exact h.2 ▸ ht
      · split at h
        · simp at h
        · simp only [Prod.mk.injEq, arith_eq_ok, checkedAdd_eq_some] at h
          obtain ⟨-, hlt, rfl⟩ := h
          exact hlt

/-- The whole pass keeps the total a machine number. -/
lemma forWrite_lockShare_lt {cap total : ℕ} : ∀ {slots slots' : List Slot} {t t' : ℕ},
    t < 2 ^ 64 → forWrite (lockShare cap total) t slots = (slots', .ok t') → t' < 2 ^ 64
  | [], slots', t, t', ht, h => by
      simp only [forWrite_nil, Prod.mk.injEq, Except.ok.injEq] at h
      exact h.2 ▸ ht
  | s :: slots, slots', t, t', ht, h => by
      obtain ⟨s₁, t₁, rest, hs, hrest, -⟩ := forWrite_cons_eq_ok h
      exact forWrite_lockShare_lt (lockShare_lt ht hs) hrest

/-- An investor whose lock is part of the total takes the gap unless the total overflows. -/
lemma takeGap_result {gap t : ℕ} {s : Slot} (hdep : gap ≤ s.2.usdcDeposited)
    (hlock : s.2.usdcLockedCurrentRound ≤ t) :
    (takeGap gap t s).2 = if t + gap < 2 ^ 64 then .ok (t + gap)
      else .error (.Program .ArithmeticOverflow) := by
  split_ifs with hlt
  · rw [(takeGap_eq_ok hdep).mpr ⟨by omega, hlt, rfl, rfl⟩]
  · refine eq_error_of_failsOnly (takeGap_failsOnly gap t s) fun t' ht' => ?_
    exact hlt ((takeGap_eq_ok hdep).mp (Prod.ext rfl ht')).2.1

/-- Whether the gap is taken does not depend on the order, only by whom it is. -/
lemma absorbGap_result {gap t : ℕ} : ∀ {slots : List Slot},
    (∀ s ∈ slots, s.1 = true → s.2.usdcLockedCurrentRound ≤ t) →
    (absorbGap gap t slots).2 =
      if ∃ s ∈ slots, s.1 = true ∧ gap ≤ s.2.usdcDeposited then
        if t + gap < 2 ^ 64 then .ok (t + gap) else .error (.Program .ArithmeticOverflow)
      else .ok t
  | [], _ => by simp [absorbGap]
  | s :: slots, hlock => by
      rw [absorbGap]
      by_cases htake : s.1 = true ∧ gap ≤ s.2.usdcDeposited
      · have hex : ∃ x ∈ s :: slots, x.1 = true ∧ gap ≤ x.2.usdcDeposited := ⟨s, by simp, htake⟩
        rw [if_pos htake, if_pos hex]
        exact takeGap_result htake.2 (hlock s (by simp) htake.1)
      · rw [if_neg htake]
        simp only [List.mem_cons, exists_eq_or_imp, htake, false_or]
        exact absorbGap_result fun s hs => hlock s (List.mem_cons_of_mem _ hs)

/-- **The result of the writing half.**  It is an error if the shares or the gap do not fit.  If
there is a gap and somebody can take it, the result is the cap, which then has to fit as well.
Otherwise it is the sum of the shares. -/
lemma lockEligible_result {cap total : ℕ} {slots : List Slot} (htotal : 0 < total)
    (haff : ∀ s ∈ slots, s.1 = true → Affordable cap total s.2) (hfit : PassFits cap slots) :
    (lockEligible cap total slots).2 =
      if ¬ flaggedSum (fun r => share cap total r.aatVolume) slots < 2 ^ 64 then
        .error (.Program .ArithmeticOverflow)
      else if gapOf cap total slots = 0 then
        .ok (flaggedSum (fun r => share cap total r.aatVolume) slots)
      else if ¬ gapOf cap total slots < 2 ^ 64 then .error (.Program .ArithmeticOverflow)
      else if ∃ s ∈ slots, CanAbsorb cap total slots s then
        if cap < 2 ^ 64 then .ok cap else .error (.Program .ArithmeticOverflow)
      else .ok (flaggedSum (fun r => share cap total r.aatVolume) slots) := by
  set base := flaggedSum (fun r => share cap total r.aatVolume) slots with hbase
  by_cases hlt : base < 2 ^ 64
  swap
  · rw [if_pos hlt]
    refine eq_error_of_failsOnly (lockEligible_failsOnly cap total slots) fun locked h => ?_
    rw [lockEligible] at h
    split at h
    · simp at h
    · rename_i slots' t hloop
      have ht : t = 0 + base := (forWrite_lockShare haff hloop).2
      have := forWrite_lockShare_lt (by decide) hloop
      omega
  rw [if_neg (not_not.mpr hlt)]
  obtain ⟨slots', t, hloop⟩ := forWrite_lockShare_total (t := 0) htotal haff hfit (by omega)
  obtain ⟨rfl, ht⟩ := forWrite_lockShare haff hloop
  obtain rfl : t = base := by rw [ht, Nat.zero_add]
  have hgap : cap - base = gapOf cap total slots := rfl
  rw [lockEligible, hloop]
  dsimp only
  rw [hgap]
  by_cases h0 : gapOf cap total slots = 0
  · rw [if_pos h0, if_pos h0]
  rw [if_neg h0, if_neg h0]
  by_cases hgap64 : gapOf cap total slots < 2 ^ 64
  swap
  · rw [if_pos hgap64, tryFrom, if_neg hgap64]
    rfl
  rw [if_neg (not_not.mpr hgap64), tryFrom_of_lt hgap64, arith_some]
  dsimp only
  rw [absorbGap_result]
  · have hcap : base + gapOf cap total slots = cap := by omega
    rw [hcap]
    refine if_congr ?_ rfl rfl
    simp only [List.mem_map, exists_exists_and_eq_and, lockedSlot_fst]
    refine exists_congr fun s => and_congr_right fun hs => and_congr_right fun hs1 => ?_
    have hle : share cap total s.2.aatVolume ≤ s.2.usdcDeposited := (haff s hs hs1).2
    rw [lockedSlot_deposited hs1]
    omega
  · intro s hs hs1
    obtain ⟨s, hmem, rfl⟩ := List.mem_map.mp hs
    rw [lockedSlot_fst] at hs1
    rw [lockedSlot_locked hs1]
    exact le_flaggedSum (f := fun r => share cap total r.aatVolume) hmem hs1

/-- The total that is locked does not see the order of the slots. -/
lemma lockEligible_perm {cap total : ℕ} {slots₁ slots₂ : List Slot} (h : slots₁.Perm slots₂)
    (htotal : 0 < total) (haff : ∀ s ∈ slots₂, s.1 = true → Affordable cap total s.2)
    (hfit : PassFits cap slots₂) :
    (lockEligible cap total slots₁).2 = (lockEligible cap total slots₂).2 := by
  rw [lockEligible_result htotal haff hfit,
    lockEligible_result htotal (fun s hs => haff s (h.mem_iff.mp hs)) ((passFits_perm h).mpr hfit)]
  simp only [flaggedSum_perm h, gapOf_perm h, exists_canAbsorb_perm h]

/-- After a selection, the start returns what locking it returns. -/
lemma executeRoundStart_result {l : List InvestorRecord} {size price d cap volume : ℕ}
    {slots : List Slot} (h : selectEligible l size price d = .ok (cap, slots, volume)) :
    (executeRoundStart l size price d).2
      = (lockEligible cap volume slots).2 >>= fun locked => .ok (volume, locked) := by
  rw [executeRoundStart, h]
  dsimp only
  split <;> rename_i hlock <;> rw [hlock] <;> rfl

/-- The pool after a successful start, by the predicate that says who takes part. -/
lemma executeRoundStart_pool {l : List InvestorRecord} {size price d cap volume locked : ℕ}
    {p : InvestorRecord → Bool} (hcap : size * price / 10 ^ d = cap)
    (hsel : selectEligible l size price d = .ok (cap, tagged p l, volume))
    (h : (executeRoundStart l size price d).2 = .ok (volume, locked)) :
    ∃ absorber : Option ℕ,
      (executeRoundStart l size price d).1 = l.mapIdx (fun i r => startedRecord cap volume
        (gapOf cap volume (tagged p l)) (decide (absorber = some i)) (p r, r)) ∧
      (absorber = none ↔ ¬ (0 < gapOf cap volume (tagged p l) ∧ locked = cap)) := by
  have hstart : executeRoundStart l size price d
      = ((executeRoundStart l size price d).1, .ok (volume, locked)) := Prod.ext rfl h
  obtain ⟨slots, absorber, hsel', hpool, hnone, hsome⟩ := executeRoundStart_outcome hcap hstart
  obtain rfl : slots = tagged p l := by simpa [hsel] using hsel'.symm
  refine ⟨absorber, ?_, ?_⟩
  · refine hpool.trans (List.ext_getElem? fun i => ?_)
    simp only [List.getElem?_mapIdx, tagged, List.getElem?_map, Option.map_map]
    rfl
  · cases absorber with
    | none =>
        have hsum := (hnone rfl).1
        simp only [true_iff]
        omega
    | some i =>
        obtain ⟨-, -, -, hgap, rfl⟩ := hsome i rfl
        simp [hgap]

/-- **Round start does not depend on the order of the slots.**  For a permuted slice the start
returns the same result.  If it succeeds, one predicate on records says who takes part in both
orders, each record becomes the same one, locks included, unless it is the one that takes the gap,
and a gap is taken in one order if it is in the other. -/
theorem round_start_order_independent {l₁ l₂ : List InvestorRecord} (hperm : l₁.Perm l₂)
    (size price d : ℕ) :
    (executeRoundStart l₁ size price d).2 = (executeRoundStart l₂ size price d).2 ∧
    ∀ volume locked, (executeRoundStart l₁ size price d).2 = .ok (volume, locked) →
      ∃ (eligible : InvestorRecord → Bool) (absorber₁ absorber₂ : Option ℕ),
        let cap := size * price / 10 ^ d
        let gap := gapOf cap volume (tagged eligible l₁)
        selectEligible l₁ size price d = .ok (cap, tagged eligible l₁, volume) ∧
        selectEligible l₂ size price d = .ok (cap, tagged eligible l₂, volume) ∧
        (executeRoundStart l₁ size price d).1 = l₁.mapIdx (fun i r =>
          startedRecord cap volume gap (decide (absorber₁ = some i)) (eligible r, r)) ∧
        (executeRoundStart l₂ size price d).1 = l₂.mapIdx (fun i r =>
          startedRecord cap volume gap (decide (absorber₂ = some i)) (eligible r, r)) ∧
        (absorber₁ = none ↔ absorber₂ = none) := by
  rcases selectEligible_perm hperm size price d with ⟨e, h₁, h₂⟩ | ⟨cap, p, V, hfit, h₁, h₂⟩
  · rw [executeRoundStart, executeRoundStart, h₁, h₂]
    exact ⟨rfl, by simp⟩
  obtain ⟨⟨-, hcap, -⟩, -, hel, -, hV⟩ := selectEligible_ok h₂
  have hresult : (executeRoundStart l₁ size price d).2 = (executeRoundStart l₂ size price d).2 := by
    rw [executeRoundStart_result h₁, executeRoundStart_result h₂,
      lockEligible_perm (tagged_perm hperm p) hV (fun s hs hs1 => (hel s hs hs1).2) hfit]
  refine ⟨hresult, fun volume locked hok => ?_⟩
  -- The volume of a successful start is the one the elimination returned.
  obtain rfl : V = volume := by
    rw [executeRoundStart_result h₁] at hok
    simp only [bind_eq_ok, Except.ok.injEq, Prod.mk.injEq] at hok
    obtain ⟨-, -, rfl, -⟩ := hok
    rfl
  obtain ⟨absorber₁, hpool₁, hnone₁⟩ := executeRoundStart_pool hcap h₁ hok
  obtain ⟨absorber₂, hpool₂, hnone₂⟩ := executeRoundStart_pool hcap h₂ (hresult ▸ hok)
  rw [← gapOf_perm (tagged_perm hperm p)] at hpool₂ hnone₂
  rw [hcap]
  exact ⟨p, absorber₁, absorber₂, h₁, h₂, hpool₁, hpool₂, hnone₁.trans hnone₂.symm⟩

/-- In either order of `thirds` the gap goes to the slot that comes first. -/
theorem round_start_order_independent_thirds :
    (executeRoundStart thirds 1000000000 100 9).2
      = (executeRoundStart thirds.reverse 1000000000 100 9).2 ∧
    (executeRoundStart thirds 1000000000 100 9).1.map (·.usdcLockedCurrentRound) = [34, 66] ∧
    (executeRoundStart thirds.reverse 1000000000 100 9).1.map (·.usdcLockedCurrentRound)
      = [67, 33] :=
  ⟨(round_start_order_independent thirds.reverse_perm.symm 1000000000 100 9).1,
    by decide +kernel, by decide +kernel⟩

end Floor
