import FloorProgram.Core.ProRata
import FloorProgram.Instructions.StartRound
import FloorProgram.Lemmas.Pool

/-!
# What a round start does

The specification of `execute_round_start`, in two directions.

**A successful start.**  `eliminate_succ` writes one pass of the elimination as an equation, errors
included.  `selectEligible_ok` says which slots the elimination leaves flagged: each can pay its
share of the cap, computed with the volume of exactly those slots.  `executeRoundStart_ok` says what
becomes of the pool: USDC only moves from deposit to lock inside each record (`Moved`), the locks
sum to the returned total, the total is at most the cap, and no lock is smaller than its share.

**The gap.**  The shares are rounded down, and their sum may be short of the cap by up to one unit
per participant.  `executeRoundStart_fills_iff` says when the total reaches the cap all the same:
exactly when there is no gap, or one participant can take all of it (`GapPlaced`).
-/

namespace Floor

open Checked Loop ProRata

/-! ## Slots -/

/-- Sum of `f` over the flagged slots. -/
def flaggedSum (f : InvestorRecord → ℕ) (slots : List Slot) : ℕ :=
  ((slots.filter Prod.fst).map fun s => f s.2).sum

@[simp] lemma flaggedSum_nil (f : InvestorRecord → ℕ) : flaggedSum f [] = 0 := rfl

/-- A slot counts if it is flagged. -/
@[simp] lemma flaggedSum_cons (f : InvestorRecord → ℕ) (s : Slot) (slots : List Slot) :
    flaggedSum f (s :: slots) = (if s.1 then f s.2 else 0) + flaggedSum f slots := by
  rcases s with ⟨_ | _, r⟩ <;> simp [flaggedSum]

/-- The flagged slots are part of the pool. -/
lemma flaggedSum_le (f : InvestorRecord → ℕ) (slots : List Slot) :
    flaggedSum f slots ≤ ((slots.map Prod.snd).map f).sum := by
  induction slots with
  | nil => simp
  | cons s slots ih =>
      simp only [flaggedSum_cons, List.map_cons, List.sum_cons]
      split_ifs <;> omega

/-- The participant can pay its share of the cap, and the share is not zero. -/
def Affordable (cap totalAatVolume : ℕ) (r : InvestorRecord) : Prop :=
  0 < share cap totalAatVolume r.aatVolume ∧ share cap totalAatVolume r.aatVolume ≤ r.usdcDeposited

instance (cap totalAatVolume : ℕ) (r : InvestorRecord) :
    Decidable (Affordable cap totalAatVolume r) :=
  inferInstanceAs (Decidable (_ ∧ _))

/-! ## The elimination loop -/

/-- The eligible volume is the sum over the flagged slots, if it fits. -/
lemma eligibleVolume_eq_ok {slots : List Slot} {total : ℕ} :
    eligibleVolume slots = .ok total ↔
      flaggedSum (·.aatVolume) slots < 2 ^ 64 ∧ flaggedSum (·.aatVolume) slots = total := by
  have := foldlM_checkedAdd (ε := TxError) (w := 64) (e := .Program .ArithmeticOverflow)
    (p := Prod.fst) (f := fun s : Slot => s.2.aatVolume) (l := slots) (s := 0) (t := total)
    (by decide)
  simpa only [eligibleVolume, arith, flaggedSum, Nat.zero_add] using this

/-- The slot after one elimination pass. -/
def keepSlot (cap totalAatVolume : ℕ) (s : Slot) : Slot :=
  (s.1 && decide (Affordable cap totalAatVolume s.2), s.2)

/-- A step drops the slot exactly if its share cannot be paid, and remembers it. -/
lemma dropUnaffordable_ok {cap total : ℕ} {c c' : Bool} {s s' : Slot}
    (h : dropUnaffordable cap total c s = .ok (s', c')) :
    s' = keepSlot cap total s ∧
      c' = (c || (s.1 && !decide (Affordable cap total s.2))) := by
  obtain ⟨el, r⟩ := s
  cases el with
  | false =>
      simp only [dropUnaffordable, if_true, Except.ok.injEq, Prod.mk.injEq] at h
      obtain ⟨rfl, rfl⟩ := h
      simp [keepSlot]
  | true =>
      simp only [dropUnaffordable, if_neg (Bool.noConfusion : ¬ true = false), bind_eq_ok,
        mulDiv_eq_ok] at h
      obtain ⟨q, ⟨-, -, rfl⟩, h⟩ := h
      split_ifs at h with hdrop
      · have hna : ¬ Affordable cap total r := by
          rintro ⟨hpos, hle⟩
          rcases hdrop with h0 | hlt
          · exact Nat.pos_iff_ne_zero.mp hpos h0
          · exact Nat.not_lt.mpr hle hlt
        simp only [Except.ok.injEq, Prod.mk.injEq] at h
        obtain ⟨rfl, rfl⟩ := h
        simp [keepSlot, hna]
      · have ha : Affordable cap total r :=
          ⟨Nat.pos_of_ne_zero fun h0 => hdrop (.inl h0),
            Nat.le_of_not_lt fun hlt => hdrop (.inr hlt)⟩
        simp only [Except.ok.injEq, Prod.mk.injEq] at h
        obtain ⟨rfl, rfl⟩ := h
        simp [keepSlot, ha]

/-- A pass keeps the slots that can pay and tells whether it dropped one. -/
lemma forMut_dropUnaffordable {cap total : ℕ} :
    ∀ {slots slots' : List Slot} {c c' : Bool},
      forMut (dropUnaffordable cap total) c slots = (slots', .ok c') →
      slots' = slots.map (keepSlot cap total) ∧
        c' = (c || slots.any fun s => s.1 && !decide (Affordable cap total s.2))
  | [], slots', c, c', h => by
      simp only [forMut_nil, Prod.mk.injEq, Except.ok.injEq] at h
      obtain ⟨rfl, rfl⟩ := h
      simp
  | s :: slots, slots', c, c', h => by
      obtain ⟨s₁, c₁, rest, hs, hrest, rfl⟩ := forMut_cons_eq_ok h
      obtain ⟨rfl, rfl⟩ := dropUnaffordable_ok hs
      obtain ⟨rfl, rfl⟩ := forMut_dropUnaffordable hrest
      simp [Bool.or_assoc]

/-- An arithmetic failure. -/
abbrev Overflows (e : TxError) : Prop := e = .Program .ArithmeticOverflow

lemma overflows : Overflows (.Program .ArithmeticOverflow) := rfl

/-- Multiplying and dividing fails only by an overflow. -/
lemma failsOnly_mulDiv {P : TxError → Prop} (h : P (.Program .ArithmeticOverflow)) (a b c : ℕ) :
    FailsOnly P (mulDiv a b c) :=
  failsOnly_bind (failsOnly_arith h) fun _ _ => failsOnly_arith h

/-- So does the version that returns 64 bits. -/
lemma failsOnly_mulDivU64 {P : TxError → Prop} (h : P (.Program .ArithmeticOverflow))
    (a b c : ℕ) : FailsOnly P (mulDivU64 a b c) :=
  failsOnly_bind (failsOnly_mulDiv h a b c) fun _ _ => failsOnly_arith h

/-- A step of a pass can only overflow. -/
lemma dropUnaffordable_failsOnly (cap total : ℕ) (c : Bool) (s : Slot) :
    FailsOnly Overflows (dropUnaffordable cap total c s) := by
  unfold dropUnaffordable
  refine failsOnly_ite (fun _ => failsOnly_ok _) fun _ => ?_
  refine failsOnly_bind (failsOnly_mulDiv overflows _ _ _) fun q _ => ?_
  exact failsOnly_ite (fun _ => failsOnly_ok _) fun _ => failsOnly_ok _

/-- A share that fits can be compared with the deposit. -/
lemma dropUnaffordable_total {cap total : ℕ} (c : Bool) {s : Slot} (htotal : 0 < total)
    (hfit : s.1 = true → cap * s.2.aatVolume < 2 ^ 128) :
    ∃ s' c', dropUnaffordable cap total c s = .ok (s', c') := by
  rw [dropUnaffordable]
  split_ifs with hflag
  · exact ⟨s, c, rfl⟩
  · have hmul : mulDiv cap s.2.aatVolume total = .ok (cap * s.2.aatVolume / total) :=
      mulDiv_eq_ok.mpr ⟨hfit (by simpa using hflag), htotal.ne', rfl⟩
    rw [hmul, ok_bind]
    split_ifs
    · exact ⟨_, _, rfl⟩
    · exact ⟨_, _, rfl⟩

/-- The eligible volume overflows or is the sum. -/
lemma eligibleVolume_eq (slots : List Slot) :
    eligibleVolume slots = if flaggedSum (·.aatVolume) slots < 2 ^ 64
      then .ok (flaggedSum (·.aatVolume) slots) else .error (.Program .ArithmeticOverflow) := by
  split_ifs with hlt
  · exact eligibleVolume_eq_ok.mpr ⟨hlt, rfl⟩
  · refine eq_error_of_failsOnly ?_ fun total htotal => hlt (eligibleVolume_eq_ok.mp htotal).1
    refine failsOnly_foldlM (fun total s => ?_) slots 0
    split_ifs
    · exact failsOnly_arith rfl
    · exact failsOnly_ok total

/-- Every product of the pass fits its machine word. -/
def PassFits (cap : ℕ) (slots : List Slot) : Prop :=
  ∀ s ∈ slots, s.1 = true → cap * s.2.aatVolume < 2 ^ 128

/-- The pass drops somebody. -/
def Drops (cap totalAatVolume : ℕ) (slots : List Slot) : Prop :=
  ∃ s ∈ slots, s.1 = true ∧ ¬ Affordable cap totalAatVolume s.2

instance (cap : ℕ) (slots : List Slot) : Decidable (PassFits cap slots) :=
  inferInstanceAs (Decidable (∀ s ∈ slots, s.1 = true → cap * s.2.aatVolume < 2 ^ 128))

instance (cap total : ℕ) (slots : List Slot) : Decidable (Drops cap total slots) :=
  inferInstanceAs (Decidable (∃ s ∈ slots, s.1 = true ∧ ¬ Affordable cap total s.2))

/-- A pass that drops nobody leaves the slots as they were. -/
lemma map_keepSlot_of_not_drops {cap total : ℕ} {slots : List Slot} (h : ¬ Drops cap total slots) :
    slots.map (keepSlot cap total) = slots := by
  refine (List.map_congr_left fun s hs => ?_).trans (List.map_id slots)
  obtain ⟨flag, r⟩ := s
  cases flag with
  | false => rfl
  | true =>
      have haff : Affordable cap total r := by
        by_contra hna
        exact h ⟨_, hs, rfl, hna⟩
      simp [keepSlot, haff]

/-- In a pass that returns, every product fits. -/
lemma passFits_of_ok {cap total : ℕ} :
    ∀ {slots slots' : List Slot} {c c' : Bool},
      forMut (dropUnaffordable cap total) c slots = (slots', .ok c') → PassFits cap slots
  | [], _, _, _, _ => fun s hs => absurd hs (List.not_mem_nil)
  | s :: slots, slots', c, c', h => by
      obtain ⟨s₁, c₁, rest, hs, hrest, -⟩ := forMut_cons_eq_ok h
      intro x hx hflag
      rcases List.mem_cons.mp hx with rfl | hx
      · rw [dropUnaffordable, if_neg (by simp [hflag])] at hs
        simp only [bind_eq_ok, mulDiv_eq_ok] at hs
        obtain ⟨_, ⟨hfit, -⟩, -⟩ := hs
        exact hfit
      · exact passFits_of_ok hrest x hx hflag

/-- **One pass of the loop.** -/
lemma eliminate_succ (cap fuel : ℕ) (slots : List Slot) :
    eliminate cap (fuel + 1) slots =
      if ¬ flaggedSum (·.aatVolume) slots < 2 ^ 64 then .error (.Program .ArithmeticOverflow)
      else if flaggedSum (·.aatVolume) slots = 0 then .error (.Program .NoEligibleInvestors)
      else if ¬ PassFits cap slots then .error (.Program .ArithmeticOverflow)
      else if Drops cap (flaggedSum (·.aatVolume) slots) slots then
        eliminate cap fuel (slots.map (keepSlot cap (flaggedSum (·.aatVolume) slots)))
      else .ok (slots, flaggedSum (·.aatVolume) slots) := by
  rw [eliminate, eligibleVolume_eq]
  set V := flaggedSum (·.aatVolume) slots
  by_cases hlt : V < 2 ^ 64
  · rw [if_pos hlt, ok_bind, if_neg (not_not.mpr hlt)]
    by_cases hV : V = 0
    · rw [if_pos hV, ensure_of_not _ (by omega), error_bind]
    rw [if_neg hV, ensure_of _ (Nat.pos_of_ne_zero hV), ok_bind]
    by_cases hfit : PassFits cap slots
    · rw [if_neg (not_not.mpr hfit)]
      obtain ⟨slots₁, changed, hloop, -⟩ := forMut_total (fun _ _ _ => True) slots [] [] false
        (fun p s q _ c hsplit _ => by
          have hs : s ∈ slots := by rw [hsplit]; simp
          obtain ⟨s', c', h⟩ := dropUnaffordable_total c (Nat.pos_of_ne_zero hV) (hfit s hs)
          exact ⟨s', c', h, trivial⟩) trivial
      obtain ⟨rfl, rfl⟩ := forMut_dropUnaffordable hloop
      rw [hloop, committed_ok, ok_bind]
      dsimp only
      have hchanged : (false || slots.any fun s => s.1 && !decide (Affordable cap V s.2)) = true
          ↔ Drops cap V slots := by
        simp [Drops]
      by_cases hdrop : Drops cap V slots
      · rw [if_pos hdrop, if_pos (hchanged.mpr hdrop)]
      · rw [if_neg hdrop, if_neg (mt hchanged.mp hdrop), map_keepSlot_of_not_drops hdrop]
    · rw [if_pos hfit, eq_error_of_failsOnly (e := .Program .ArithmeticOverflow)
        (failsOnly_committed (failsOnly_forMut (dropUnaffordable_failsOnly cap V) slots false)),
        error_bind]
      rintro ⟨slots', c⟩ hok
      rw [committed_eq_ok] at hok
      exact hfit (passFits_of_ok (Prod.ext hok.1 hok.2))
  · rw [if_neg hlt, error_bind, if_pos hlt]

/-- **What the elimination leaves.**  The records are untouched, a slot flagged at the end was
flagged at the start, and each flagged slot can pay its share at the final total. -/
theorem eliminate_ok {cap : ℕ} {P : InvestorRecord → Prop} :
    ∀ {fuel : ℕ} {slots slots' : List Slot} {total : ℕ},
      eliminate cap fuel slots = .ok (slots', total) →
      (∀ s ∈ slots, s.1 = true → P s.2) →
      slots'.map Prod.snd = slots.map Prod.snd ∧ (∀ s ∈ slots', s.1 = true → P s.2) ∧
        flaggedSum (·.aatVolume) slots' = total ∧ 0 < total ∧
        ∀ s ∈ slots', s.1 = true → Affordable cap total s.2
  | 0, slots, slots', total, h, _ => by simp [eliminate] at h
  | fuel + 1, slots, slots', total, h, hP => by
      rw [eliminate_succ] at h
      split_ifs at h with hlt hV hfit hdrop
      · have hP' : ∀ s ∈ slots.map (keepSlot cap (flaggedSum (·.aatVolume) slots)),
            s.1 = true → P s.2 := by
          intro s hs hflag
          obtain ⟨s₀, hs₀, rfl⟩ := List.mem_map.mp hs
          simp only [keepSlot, Bool.and_eq_true] at hflag
          exact hP s₀ hs₀ hflag.1
        obtain ⟨hrec, hrest⟩ := eliminate_ok h hP'
        refine ⟨?_, hrest⟩
        rw [hrec, List.map_map]
        rfl
      · simp only [Except.ok.injEq, Prod.mk.injEq] at h
        obtain ⟨rfl, rfl⟩ := h
        refine ⟨rfl, hP, rfl, Nat.pos_of_ne_zero hV, fun s hs hflag => ?_⟩
        by_contra hna
        exact hdrop ⟨s, hs, hflag, hna⟩

/-- How many slots are flagged. -/
def flaggedCount (slots : List Slot) : ℕ := (slots.filter Prod.fst).length

/-- A pass that drops somebody lowers the number of flagged slots. -/
lemma flaggedCount_keepSlot_lt {cap total : ℕ} {slots : List Slot}
    (h : ∃ s ∈ slots, s.1 = true ∧ ¬ Affordable cap total s.2) :
    flaggedCount (slots.map (keepSlot cap total)) < flaggedCount slots := by
  have hle : ∀ l : List Slot, flaggedCount (l.map (keepSlot cap total)) ≤ flaggedCount l := by
    intro l
    induction l with
    | nil => exact le_rfl
    | cons s l ih =>
        obtain ⟨el, r⟩ := s
        by_cases ha : Affordable cap total r <;> cases el <;>
          simp [flaggedCount, keepSlot, ha] at ih ⊢ <;> omega
  obtain ⟨s, hs, hflag, hna⟩ := h
  obtain ⟨pre, post, rfl⟩ := List.append_of_mem hs
  have h₁ := hle pre
  have h₂ := hle post
  simp only [flaggedCount, List.map_append, List.map_cons, List.filter_append, List.filter_cons,
    List.length_append, keepSlot, hflag, hna, decide_false, Bool.and_false, if_true,
    Bool.false_eq_true, if_false, List.length_cons] at h₁ h₂ ⊢
  omega

/-- A pass lowers the sums over the flagged slots, or keeps them. -/
lemma flaggedSum_keepSlot_le (f : InvestorRecord → ℕ) (cap total : ℕ) (slots : List Slot) :
    flaggedSum f (slots.map (keepSlot cap total)) ≤ flaggedSum f slots := by
  induction slots with
  | nil => exact le_rfl
  | cons s slots ih =>
      obtain ⟨el, r⟩ := s
      cases el with
      | false => simpa [keepSlot] using ih
      | true =>
          simp only [List.map_cons, flaggedSum_cons, keepSlot, Bool.true_and, if_true]
          split_ifs <;> omega

/-- **The elimination ends**, with a set of participants or with nobody left. -/
theorem eliminate_total {cap : ℕ} :
    ∀ {fuel : ℕ} {slots : List Slot}, flaggedCount slots < fuel →
      flaggedSum (·.aatVolume) slots < 2 ^ 64 → PassFits cap slots →
      (∃ r, eliminate cap fuel slots = .ok r) ∨
        eliminate cap fuel slots = .error (.Program .NoEligibleInvestors)
  | 0, _, hfuel, _, _ => absurd hfuel (Nat.not_lt_zero _)
  | fuel + 1, slots, hfuel, hvol, hfit => by
      rw [eliminate_succ, if_neg (not_not.mpr hvol)]
      by_cases hV : flaggedSum (·.aatVolume) slots = 0
      · exact .inr (if_pos hV)
      rw [if_neg hV, if_neg (not_not.mpr hfit)]
      by_cases hdrop : Drops cap (flaggedSum (·.aatVolume) slots) slots
      · rw [if_pos hdrop]
        have hlt := flaggedCount_keepSlot_lt hdrop
        refine eliminate_total (by omega) ((flaggedSum_keepSlot_le _ _ _ _).trans_lt hvol) ?_
        intro t ht hflag
        obtain ⟨t₀, ht₀, rfl⟩ := List.mem_map.mp ht
        simp only [keepSlot, Bool.and_eq_true] at hflag
        exact hfit t₀ ht₀ hflag.1
      · exact .inl ⟨_, if_neg hdrop⟩

/-- **The chosen participants.** -/
theorem selectEligible_ok {investors : List InvestorRecord} {size price d cap total : ℕ}
    {slots : List Slot} (h : selectEligible investors size price d = .ok (cap, slots, total)) :
    (10 ^ d < 2 ^ 128 ∧ size * price / 10 ^ d = cap ∧ 0 < cap) ∧
      slots.map Prod.snd = investors ∧
      (∀ s ∈ slots, s.1 = true → initiallyEligible cap s.2 = true ∧ Affordable cap total s.2) ∧
      flaggedSum (·.aatVolume) slots = total ∧ 0 < total := by
  simp only [selectEligible, bind_eq_ok, roundCapUsdc_eq_ok, ensure_eq_ok, require_eq_ok,
    Prod.exists, pure_eq_ok, Prod.mk.injEq] at h
  obtain ⟨_, ⟨hd, -, rfl⟩, -, hcap, -, -, slots₁, V, helim, rfl, rfl, rfl⟩ := h
  obtain ⟨hrec, hinit, hvol, hpos, haff⟩ := eliminate_ok
    (P := fun r => initiallyEligible (size * price / 10 ^ d) r = true) helim (by
      intro s hs hflag
      obtain ⟨r, -, rfl⟩ := List.mem_map.mp hs
      exact hflag)
  refine ⟨⟨hd, rfl, hcap⟩, ?_, fun s hs hf => ⟨hinit s hs hf, haff s hs hf⟩, hvol, hpos⟩
  rw [hrec, List.map_map]
  exact List.map_id _

/-! ## Locking -/

/-- A slot after its share was locked. -/
def lockedSlot (cap totalAatVolume : ℕ) (s : Slot) : Slot :=
  if s.1 then
    (true, { s.2 with
      usdcDeposited := s.2.usdcDeposited - share cap totalAatVolume s.2.aatVolume
      usdcLockedCurrentRound := share cap totalAatVolume s.2.aatVolume })
  else s

/-- A step locks the share of a flagged slot. -/
lemma lockShare_ok {cap total t t' : ℕ} {s s' : Slot}
    (haff : s.1 = true → Affordable cap total s.2)
    (h : lockShare cap total t s = (s', .ok t')) :
    s' = lockedSlot cap total s ∧ t' = t + if s.1 then share cap total s.2.aatVolume else 0 := by
  obtain ⟨el, r⟩ := s
  cases el with
  | false =>
      simp only [lockShare, if_true, Except.ok.injEq, Prod.mk.injEq] at h
      obtain ⟨rfl, rfl⟩ := h
      simp [lockedSlot]
  | true =>
      obtain ⟨hpos, hle⟩ := haff rfl
      rw [lockShare, if_neg (Bool.noConfusion : ¬ true = false)] at h
      split at h
      · simp at h
      · rename_i q hq
        obtain ⟨-, -, rfl⟩ := mulDiv_eq_ok.mp hq
        have hmin : min (cap * r.aatVolume / total) r.usdcDeposited
            = share cap total r.aatVolume := Nat.min_eq_left hle
        simp only [hmin, if_neg (Nat.pos_iff_ne_zero.mp hpos), checkedSub_of_le hle, arith_some,
          Prod.mk.injEq, arith_eq_ok, checkedAdd_eq_some] at h
        obtain ⟨rfl, -, rfl⟩ := h
        simp [lockedSlot]

/-- The pass locks every share and adds them up. -/
lemma forWrite_lockShare {cap total : ℕ} :
    ∀ {slots slots' : List Slot} {t t' : ℕ},
      (∀ s ∈ slots, s.1 = true → Affordable cap total s.2) →
      forWrite (lockShare cap total) t slots = (slots', .ok t') →
      slots' = slots.map (lockedSlot cap total) ∧
        t' = t + flaggedSum (fun r => share cap total r.aatVolume) slots
  | [], slots', t, t', _, h => by
      simp only [forWrite_nil, Prod.mk.injEq, Except.ok.injEq] at h
      obtain ⟨rfl, rfl⟩ := h
      simp
  | s :: slots, slots', t, t', haff, h => by
      obtain ⟨s₁, t₁, rest, hs, hrest, rfl⟩ := forWrite_cons_eq_ok h
      obtain ⟨rfl, rfl⟩ := lockShare_ok (haff s (by simp)) hs
      obtain ⟨rfl, rfl⟩ := forWrite_lockShare (fun x hx => haff x (by simp [hx])) hrest
      simp [Nat.add_assoc]

/-- Take `gap` more into the lock. -/
def withGap (gap : ℕ) (r : InvestorRecord) : InvestorRecord :=
  { r with
    usdcDeposited := r.usdcDeposited - gap
    usdcLockedCurrentRound := r.usdcLockedCurrentRound + gap }

/-- An investor who has the gap left takes it, if the new lock and the new total fit. -/
lemma takeGap_eq_ok {gap t t' : ℕ} {s s' : Slot} (hle : gap ≤ s.2.usdcDeposited) :
    takeGap gap t s = (s', .ok t') ↔
      s.2.usdcLockedCurrentRound + gap < 2 ^ 64 ∧ t + gap < 2 ^ 64 ∧
        s' = (s.1, withGap gap s.2) ∧ t' = t + gap := by
  rw [takeGap, checkedSub_of_le hle]
  by_cases hlock : s.2.usdcLockedCurrentRound + gap < 2 ^ 64
  · simp only [arith_some, checkedAdd_of_lt hlock, Prod.mk.injEq, arith_eq_ok, checkedAdd_eq_some,
      hlock, true_and, withGap]
    constructor
    · rintro ⟨rfl, hfit, rfl⟩
      exact ⟨hfit, rfl, rfl⟩
    · rintro ⟨hfit, rfl, rfl⟩
      exact ⟨rfl, hfit, rfl⟩
  · have hnone : checkedAdd 64 s.2.usdcLockedCurrentRound gap = none := if_neg hlock
    simp only [arith_some, hnone, hlock, false_and, iff_false]
    rintro ⟨⟩

/-- Either nobody can take the gap and nothing changes, or the first who can takes all of it. -/
lemma absorbGap_ok {gap t : ℕ} :
    ∀ {slots slots' : List Slot} {t' : ℕ}, absorbGap gap t slots = (slots', .ok t') →
      (slots' = slots ∧ t' = t ∧ ∀ s ∈ slots, s.1 = true → s.2.usdcDeposited < gap) ∨
      ∃ pre r post, slots = pre ++ (true, r) :: post ∧ gap ≤ r.usdcDeposited ∧
        slots' = pre ++ (true, withGap gap r) :: post ∧ t' = t + gap ∧ t + gap < 2 ^ 64
  | [], slots', t', h => by
      simp only [absorbGap, Prod.mk.injEq, Except.ok.injEq] at h
      obtain ⟨rfl, rfl⟩ := h
      exact .inl ⟨rfl, rfl, by simp⟩
  | s :: slots, slots', t', h => by
      rw [absorbGap] at h
      split_ifs at h with htake
      · obtain ⟨el, r⟩ := s
        obtain ⟨rfl, hle⟩ : el = true ∧ gap ≤ r.usdcDeposited := htake
        simp only [Prod.mk.injEq] at h
        obtain ⟨rfl, ht⟩ := h
        obtain ⟨-, hfit, hs, rfl⟩ := (takeGap_eq_ok hle).mp (Prod.ext rfl ht)
        exact .inr ⟨[], r, slots, rfl, hle, congrArg (· :: slots) hs, rfl, hfit⟩
      · simp only [Prod.mk.injEq] at h
        obtain ⟨rfl, ht⟩ := h
        rcases absorbGap_ok (Prod.ext rfl ht : absorbGap gap t slots = (_, .ok t')) with
          ⟨hsame, rfl, hnone⟩ | ⟨pre, r, post, hsplit, hle, hnew, rfl, hfit⟩
        · refine .inl ⟨congrArg (s :: ·) hsame, rfl, fun x hx hflag => ?_⟩
          rcases List.mem_cons.mp hx with rfl | hx
          · exact Nat.lt_of_not_le fun hle => htake ⟨hflag, hle⟩
          · exact hnone x hx hflag
        · exact .inr ⟨s :: pre, r, post, congrArg (s :: ·) hsplit, hle, congrArg (s :: ·) hnew, rfl,
            hfit⟩

/-! ## The pool after a start -/

/-- Whether the rounding gap of a start can be placed: the shares fill the cap, or one participant
has enough left after its share to take all that is missing. -/
def GapPlaced (investors : List InvestorRecord) (size price d : ℕ) : Prop :=
  ∀ cap slots total, selectEligible investors size price d = .ok (cap, slots, total) →
    flaggedSum (fun r => share cap total r.aatVolume) slots = cap ∨
    ∃ s ∈ slots, s.1 = true ∧
      cap - flaggedSum (fun r => share cap total r.aatVolume) slots
        ≤ s.2.usdcDeposited - share cap total s.2.aatVolume

instance (investors : List InvestorRecord) (size price d : ℕ) :
    Decidable (GapPlaced investors size price d) :=
  match hsel : selectEligible investors size price d with
  | .error _ => .isTrue fun _ _ _ h => by simp [hsel] at h
  | .ok (cap, slots, total) =>
    decidable_of_iff
      (flaggedSum (fun r => share cap total r.aatVolume) slots = cap ∨
        ∃ s ∈ slots, s.1 = true ∧
          cap - flaggedSum (fun r => share cap total r.aatVolume) slots
            ≤ s.2.usdcDeposited - share cap total s.2.aatVolume) <| by
      simp [GapPlaced, hsel]

/-- What a successful start did to the pool. -/
structure Started (investors investors' : List InvestorRecord) (cap volume locked : ℕ) : Prop where
  moved : List.Forall₂ Moved investors investors'
  locked_eq : lockedUsdc investors' = locked
  locked_pos : 0 < locked
  locked_le : locked ≤ cap
  volume_pos : 0 < volume
  volume_le : volume ≤ poolVolume investors
  share_le : ∀ r ∈ investors', 0 < r.usdcLockedCurrentRound →
    cap < (r.usdcLockedCurrentRound + 1) * volume

/-- What the writing half did, given that every flagged slot can pay its share. -/
lemma lockEligible_ok {cap total locked : ℕ} {slots slots' : List Slot}
    (haff : ∀ s ∈ slots, s.1 = true → Affordable cap total s.2)
    (hvol : flaggedSum (·.aatVolume) slots = total)
    (h : lockEligible cap total slots = (slots', .ok locked)) :
    let base := flaggedSum (fun r => share cap total r.aatVolume) slots
    let lockedSlots := slots.map (lockedSlot cap total)
    base ≤ cap ∧
    ((slots' = lockedSlots ∧ locked = base ∧
        (base = cap ∨ ∀ s ∈ lockedSlots, s.1 = true → s.2.usdcDeposited < cap - base)) ∨
      (∃ pre r post, lockedSlots = pre ++ (true, r) :: post ∧ base < cap ∧
        cap - base ≤ r.usdcDeposited ∧ slots' = pre ++ (true, withGap (cap - base) r) :: post ∧
        locked = cap)) := by
  intro base lockedSlots
  have hbase : base ≤ cap := sum_share_le (slots.filter Prod.fst) (fun s => s.2.aatVolume) cap hvol
  refine ⟨hbase, ?_⟩
  rw [lockEligible] at h
  split at h
  · simp at h
  · rename_i slots₁ t hlock
    obtain ⟨rfl, ht⟩ := forWrite_lockShare haff hlock
    obtain rfl : t = base := by rw [ht, Nat.zero_add]
    split_ifs at h with hgap
    · simp only [Prod.mk.injEq, Except.ok.injEq] at h
      obtain ⟨rfl, rfl⟩ := h
      exact .inl ⟨rfl, rfl, .inl (by omega)⟩
    · split at h
      · simp at h
      · rename_i gap hfit
        simp only [arith_eq_ok, tryFrom_eq_some] at hfit
        obtain ⟨-, rfl⟩ := hfit
        rcases absorbGap_ok h with ⟨rfl, rfl, hnone⟩ | ⟨pre, r, post, hsplit, hle, rfl, rfl, -⟩
        · exact .inl ⟨rfl, rfl, .inr hnone⟩
        · exact .inr ⟨pre, r, post, hsplit, by omega, hle, rfl, by omega⟩

/-- The records of the slots after locking, before the gap is placed. -/
lemma forall₂_moved_locked {cap total : ℕ} {slots : List Slot}
    (hzero : ∀ s ∈ slots, s.2.usdcLockedCurrentRound = 0)
    (haff : ∀ s ∈ slots, s.1 = true → Affordable cap total s.2) :
    List.Forall₂ Moved (slots.map Prod.snd) ((slots.map (lockedSlot cap total)).map Prod.snd) := by
  rw [List.map_map, List.forall₂_map_left_iff, List.forall₂_map_right_iff, List.forall₂_same]
  rintro ⟨el, r⟩ hs
  cases el with
  | false => exact Moved.refl r
  | true =>
      have h0 : r.usdcLockedCurrentRound = 0 := hzero _ hs
      have hle : share cap total r.aatVolume ≤ r.usdcDeposited := (haff _ hs rfl).2
      refine ⟨rfl, rfl, rfl, rfl, rfl, ?_⟩
      simp only [Function.comp, lockedSlot, if_true, InvestorRecord.position]
      omega

/-- The locks of the slots after locking are the shares of the flagged ones. -/
lemma lockedUsdc_locked (cap total : ℕ) {slots : List Slot}
    (hzero : ∀ s ∈ slots, s.2.usdcLockedCurrentRound = 0) :
    lockedUsdc ((slots.map (lockedSlot cap total)).map Prod.snd)
      = flaggedSum (fun r => share cap total r.aatVolume) slots := by
  induction slots with
  | nil => rfl
  | cons s slots ih =>
      have := ih fun x hx => hzero x (by simp [hx])
      have h0 := hzero s (by simp)
      obtain ⟨el, r⟩ := s
      simp only [lockedUsdc, List.map_cons, List.sum_cons, flaggedSum_cons] at this h0 ⊢
      rw [this]
      cases el <;> simp [lockedSlot, h0]

/-- Every positive lock after locking is a share of a positive volume. -/
lemma share_le_locked {cap total : ℕ} {slots : List Slot} (htotal : 0 < total)
    (hzero : ∀ s ∈ slots, s.2.usdcLockedCurrentRound = 0)
    (hinit : ∀ s ∈ slots, s.1 = true → initiallyEligible cap s.2 = true)
    {s : Slot} (hs : s ∈ slots.map (lockedSlot cap total))
    (hpos : 0 < s.2.usdcLockedCurrentRound) : cap < (s.2.usdcLockedCurrentRound + 1) * total := by
  obtain ⟨⟨el, r⟩, hmem, rfl⟩ := List.mem_map.mp hs
  have h0 := hzero _ hmem
  cases el with
  | false => simp only [lockedSlot] at hpos h0; simp at hpos; omega
  | true =>
      have hv : 0 < r.aatVolume := by
        have := hinit _ hmem rfl
        simp only [initiallyEligible, decide_eq_true_eq] at this
        exact this.2.1
      simp only [lockedSlot, if_true]
      calc cap = cap * 1 := (Nat.mul_one cap).symm
        _ ≤ cap * r.aatVolume := Nat.mul_le_mul_left cap hv
        _ < (share cap total r.aatVolume + 1) * total := lt_share_succ_mul cap _ htotal

/-- Placing the gap with one participant moves it inside that record and adds it to the locks. -/
lemma forall₂_moved_withGap {gap : ℕ} {pre post : List InvestorRecord} {r : InvestorRecord}
    (hle : gap ≤ r.usdcDeposited) :
    List.Forall₂ Moved (pre ++ r :: post) (pre ++ withGap gap r :: post) := by
  refine List.rel_append (forall₂_moved_refl pre) (.cons ?_ (forall₂_moved_refl post))
  exact ⟨rfl, rfl, rfl, rfl, rfl, by simp only [withGap, InvestorRecord.position]; omega⟩

/-- Whoever takes the gap raises the locks by it. -/
lemma lockedUsdc_withGap {gap : ℕ} {pre post : List InvestorRecord} {r : InvestorRecord} :
    lockedUsdc (pre ++ withGap gap r :: post) = lockedUsdc (pre ++ r :: post) + gap := by
  simp only [lockedUsdc, List.map_append, List.map_cons, List.sum_append, List.sum_cons, withGap]
  omega

/-- A successful start went through both halves. -/
lemma executeRoundStart_split {investors investors' : List InvestorRecord}
    {size price d volume locked : ℕ}
    (h : executeRoundStart investors size price d = (investors', .ok (volume, locked))) :
    ∃ cap slots slots', selectEligible investors size price d = .ok (cap, slots, volume) ∧
      lockEligible cap volume slots = (slots', .ok locked) ∧ investors' = slots'.map Prod.snd := by
  rw [executeRoundStart] at h
  split at h
  · simp at h
  · rename_i cap slots total hsel
    split at h
    · simp at h
    · rename_i slots' L hlock
      simp only [Prod.mk.injEq, Except.ok.injEq] at h
      obtain ⟨rfl, rfl, rfl⟩ := h
      exact ⟨cap, slots, slots', hsel, hlock, rfl⟩

/-- Somebody is flagged if the flagged volume is positive, so the shares are not all zero. -/
lemma flaggedSum_share_pos {cap total : ℕ} {slots : List Slot}
    (haff : ∀ s ∈ slots, s.1 = true → Affordable cap total s.2)
    (hvol : 0 < flaggedSum (·.aatVolume) slots) :
    0 < flaggedSum (fun r => share cap total r.aatVolume) slots := by
  obtain ⟨s, hs⟩ : ∃ s, s ∈ slots.filter Prod.fst := by
    apply List.exists_mem_of_ne_nil
    intro hnil
    simp [flaggedSum, hnil] at hvol
  obtain ⟨hmem, hflag⟩ := List.mem_filter.mp hs
  calc 0 < share cap total s.2.aatVolume := (haff s hmem hflag).1
    _ ≤ flaggedSum (fun r => share cap total r.aatVolume) slots :=
      List.single_le_sum (fun _ _ => Nat.zero_le _) _ (List.mem_map_of_mem hs)

/-- The writing half, on slots without locks that can all pay their share. -/
lemma lockEligible_started {cap total locked : ℕ} {slots slots' : List Slot} (hcap : 0 < cap)
    (htotal : 0 < total) (hz : ∀ s ∈ slots, s.2.usdcLockedCurrentRound = 0)
    (hinit : ∀ s ∈ slots, s.1 = true → initiallyEligible cap s.2 = true)
    (haff : ∀ s ∈ slots, s.1 = true → Affordable cap total s.2)
    (hvol : flaggedSum (·.aatVolume) slots = total)
    (h : lockEligible cap total slots = (slots', .ok locked)) :
    Started (slots.map Prod.snd) (slots'.map Prod.snd) cap total locked := by
  have hmoved := forall₂_moved_locked hz haff
  have hsum := lockedUsdc_locked cap total hz
  have hpos := flaggedSum_share_pos haff (hvol ▸ htotal)
  have hvle : total ≤ poolVolume (slots.map Prod.snd) := hvol ▸ flaggedSum_le _ slots
  have hshare : ∀ r ∈ (slots.map (lockedSlot cap total)).map Prod.snd,
      0 < r.usdcLockedCurrentRound → cap < (r.usdcLockedCurrentRound + 1) * total := by
    intro r hr hrpos
    obtain ⟨s, hs, rfl⟩ := List.mem_map.mp hr
    exact share_le_locked htotal hz hinit hs hrpos
  obtain ⟨hbase, ⟨rfl, rfl, -⟩ | ⟨pre, r, post, hsplit, hlt, hle, rfl, hL⟩⟩ :=
    lockEligible_ok haff hvol h
  · exact ⟨hmoved, hsum, hpos, hbase, htotal, hvle, hshare⟩
  · have hflag : (true, r) ∈ slots.map (lockedSlot cap total) := by rw [hsplit]; simp
    rw [hsplit] at hmoved hsum hshare
    rw [hL]
    simp only [List.map_append, List.map_cons] at hmoved hsum hshare ⊢
    refine ⟨forall₂_moved_trans hmoved (forall₂_moved_withGap hle), ?_, hcap, le_rfl, htotal,
      hvle, ?_⟩
    · rw [lockedUsdc_withGap, hsum]
      omega
    · intro x hx hxpos
      simp only [List.mem_append, List.mem_cons] at hx hshare
      rcases hx with hx | rfl | hx
      · exact hshare x (.inl hx) hxpos
      · -- the absorber had its own share before it took the gap
        have hr : 0 < r.usdcLockedCurrentRound := by
          obtain ⟨⟨el, r₀⟩, hmem₀, heq⟩ := List.mem_map.mp hflag
          cases el with
          | false => simp [lockedSlot] at heq
          | true =>
              simp only [lockedSlot, if_true, Prod.mk.injEq, true_and] at heq
              rw [← heq]
              exact (haff _ hmem₀ rfl).1
        refine lt_of_lt_of_le (hshare r (.inr (.inl rfl)) hr) ?_
        exact Nat.mul_le_mul_right _ (by simp only [withGap]; omega)
      · exact hshare x (.inr (.inr hx)) hxpos

/-- **A successful start**, on a pool without locks. -/
theorem executeRoundStart_ok {investors investors' : List InvestorRecord}
    {size price d volume locked : ℕ}
    (hzero : ∀ r ∈ investors, r.usdcLockedCurrentRound = 0)
    (h : executeRoundStart investors size price d = (investors', .ok (volume, locked))) :
    Started investors investors' (size * price / 10 ^ d) volume locked := by
  obtain ⟨cap, slots, slots', hsel, hlock, rfl⟩ := executeRoundStart_split h
  obtain ⟨⟨-, rfl, hcap⟩, rfl, helig, hvol, htotal⟩ := selectEligible_ok hsel
  exact lockEligible_started hcap htotal (fun s hs => hzero s.2 (List.mem_map_of_mem hs))
    (fun s hs hf => (helig s hs hf).1) (fun s hs hf => (helig s hs hf).2) hvol hlock

/-- **When the locks fill the cap**: exactly when the rounding gap can be placed. -/
theorem executeRoundStart_fills_iff {investors investors' : List InvestorRecord}
    {size price d volume locked : ℕ}
    (h : executeRoundStart investors size price d = (investors', .ok (volume, locked))) :
    locked = size * price / 10 ^ d ↔ GapPlaced investors size price d := by
  obtain ⟨cap, slots, slots', hsel, hlock, rfl⟩ := executeRoundStart_split h
  obtain ⟨⟨-, hcap, -⟩, -, helig, hvol, -⟩ := selectEligible_ok hsel
  have hgap : GapPlaced investors size price d ↔
      flaggedSum (fun r => share cap volume r.aatVolume) slots = cap ∨
      ∃ s ∈ slots, s.1 = true ∧ cap - flaggedSum (fun r => share cap volume r.aatVolume) slots
        ≤ s.2.usdcDeposited - share cap volume s.2.aatVolume := by
    refine ⟨fun hg => hg cap slots volume hsel, fun hg c l t hsel' => ?_⟩
    rw [hsel] at hsel'
    simp only [Except.ok.injEq, Prod.mk.injEq] at hsel'
    obtain ⟨rfl, rfl, rfl⟩ := hsel'
    exact hg
  rw [hcap, hgap]
  obtain ⟨hbase, ⟨-, rfl, hnone⟩ | ⟨pre, r, post, hsplit, hlt, hle, -, hL⟩⟩ :=
    lockEligible_ok (fun s hs hf => (helig s hs hf).2) hvol hlock
  · refine ⟨.inl, ?_⟩
    rintro (hfull | ⟨s, hs, hflag, hroom⟩)
    · exact hfull
    · rcases hnone with hfull | hnone
      · exact hfull
      · have := hnone (lockedSlot cap volume s) (List.mem_map_of_mem hs)
        simp only [lockedSlot, hflag, if_true, forall_const] at this
        omega
  · refine ⟨fun _ => .inr ?_, fun _ => hL⟩
    have hmem : (true, r) ∈ slots.map (lockedSlot cap volume) := by rw [hsplit]; simp
    obtain ⟨⟨el, r₀⟩, hmem₀, heq⟩ := List.mem_map.mp hmem
    cases el with
    | false => simp [lockedSlot] at heq
    | true =>
        simp only [lockedSlot, if_true, Prod.mk.injEq, true_and] at heq
        subst heq
        exact ⟨_, hmem₀, rfl, hle⟩

/-! ## A start that fails

Only the read-only half can fail in a way `sell_waln` recovers from, and it leaves the pool alone.
With deposits and volumes in their range nothing else can go wrong: nobody can be eligible for a
cap so large that the arithmetic would overflow.
-/

/-- Locking a share can only overflow. -/
lemma lockShare_failsOnly (cap total t : ℕ) (s : Slot) :
    FailsOnly Overflows (lockShare cap total t s).2 := by
  rw [lockShare]
  split_ifs
  · exact failsOnly_ok _
  · split
    · rename_i e he
      exact failsOnly_error (failsOnly_mulDiv overflows _ _ _ e he)
    · dsimp only
      split_ifs
      · exact failsOnly_ok _
      · split
        · rename_i e he
          exact failsOnly_error (failsOnly_arith overflows e he)
        · exact failsOnly_arith overflows

/-- Taking the gap can only overflow. -/
lemma takeGap_failsOnly (gap t : ℕ) (s : Slot) : FailsOnly Overflows (takeGap gap t s).2 := by
  rw [takeGap]
  split
  · rename_i e he
    exact failsOnly_error (failsOnly_arith overflows e he)
  · dsimp only
    split
    · rename_i e he
      exact failsOnly_error (failsOnly_arith overflows e he)
    · exact failsOnly_arith overflows

/-- Looking for somebody to take the gap can only overflow. -/
lemma absorbGap_failsOnly (gap t : ℕ) :
    ∀ slots : List Slot, FailsOnly Overflows (absorbGap gap t slots).2
  | [] => failsOnly_ok _
  | s :: slots => by
      rw [absorbGap]
      split_ifs
      · exact takeGap_failsOnly gap t s
      · exact absorbGap_failsOnly gap t slots

/-- Locking as a whole can only overflow. -/
lemma lockEligible_failsOnly (cap total : ℕ) (slots : List Slot) :
    FailsOnly Overflows (lockEligible cap total slots).2 := by
  have hloop := failsOnly_forWrite (lockShare_failsOnly cap total) slots 0
  rw [lockEligible]
  split
  · rename_i slots' e he
    exact failsOnly_error (hloop e (by rw [he]))
  · split_ifs
    · exact failsOnly_ok _
    · split
      · rename_i e he
        exact failsOnly_error (failsOnly_arith overflows e he)
      · exact absorbGap_failsOnly _ _ _

/-- **A failed start leaves the pool alone**, unless it failed in its arithmetic. -/
theorem executeRoundStart_error {investors investors' : List InvestorRecord} {size price d : ℕ}
    {e : TxError} (h : executeRoundStart investors size price d = (investors', .error e))
    (he : ¬ Overflows e) : investors' = investors := by
  rw [executeRoundStart] at h
  split at h
  · simp only [Prod.mk.injEq, Except.error.injEq] at h
    exact h.1.symm
  · rename_i cap slots total _
    split at h
    · rename_i slots' e' hlock
      simp only [Prod.mk.injEq, Except.error.injEq] at h
      obtain ⟨-, rfl⟩ := h
      exact absurd (lockEligible_failsOnly cap total slots e' (by rw [hlock])) he
    · simp at h

/-- A share that can be paid, and sums that fit, are locked. -/
lemma lockShare_total {cap total t : ℕ} {s : Slot} (htotal : 0 < total)
    (haff : s.1 = true → Affordable cap total s.2)
    (hfit : s.1 = true → cap * s.2.aatVolume < 2 ^ 128)
    (hsum : t + (if s.1 then share cap total s.2.aatVolume else 0) < 2 ^ 64) :
    ∃ s' t', lockShare cap total t s = (s', .ok t') := by
  obtain ⟨el, r⟩ := s
  cases el with
  | false => exact ⟨_, _, rfl⟩
  | true =>
      obtain ⟨hpos, hle⟩ := haff rfl
      have hmul : mulDiv cap r.aatVolume total = .ok (share cap total r.aatVolume) :=
        mulDiv_eq_ok.mpr ⟨hfit rfl, htotal.ne', rfl⟩
      simp only [if_true] at hsum
      rw [lockShare, if_neg (Bool.noConfusion : ¬ true = false), hmul]
      simp only [Nat.min_eq_left hle, if_neg (Nat.pos_iff_ne_zero.mp hpos), checkedSub_of_le hle,
        checkedAdd_of_lt hsum, arith_some]
      exact ⟨_, _, rfl⟩

/-- Where all of them fit, the pass runs to its end. -/
lemma forWrite_lockShare_total {cap total : ℕ} (htotal : 0 < total) :
    ∀ {slots : List Slot} {t : ℕ}, (∀ s ∈ slots, s.1 = true → Affordable cap total s.2) →
      (∀ s ∈ slots, s.1 = true → cap * s.2.aatVolume < 2 ^ 128) →
      t + flaggedSum (fun r => share cap total r.aatVolume) slots < 2 ^ 64 →
      ∃ slots' t', forWrite (lockShare cap total) t slots = (slots', .ok t')
  | [], t, _, _, _ => ⟨_, _, rfl⟩
  | s :: slots, t, haff, hfit, hsum => by
      rw [flaggedSum_cons] at hsum
      obtain ⟨s', t', hs⟩ := lockShare_total (t := t) htotal (haff s (by simp)) (hfit s (by simp))
        (by omega)
      obtain ⟨-, rfl⟩ := lockShare_ok (haff s (by simp)) hs
      obtain ⟨slots', t', hrest⟩ := forWrite_lockShare_total htotal
        (fun x hx => haff x (List.mem_cons_of_mem s hx)) (fun x hx => hfit x (by simp [hx]))
        (by rw [← Nat.add_assoc] at hsum; exact hsum)
      exact ⟨s' :: slots', t', by rw [forWrite_cons_ok slots hs, hrest]⟩

/-- Where the lock and the total fit with the gap, it is taken or nobody can. -/
lemma absorbGap_total {gap t : ℕ} :
    ∀ {slots : List Slot}, (∀ s ∈ slots, s.1 = true → gap ≤ s.2.usdcDeposited →
        s.2.usdcLockedCurrentRound + gap < 2 ^ 64 ∧ t + gap < 2 ^ 64) →
      ∃ slots' t', absorbGap gap t slots = (slots', .ok t')
  | [], _ => ⟨_, _, rfl⟩
  | s :: slots, h => by
      rw [absorbGap]
      split_ifs with htake
      · obtain ⟨hlock, hsum⟩ := h s (by simp) htake.1 htake.2
        have hs := (takeGap_eq_ok htake.2).mpr ⟨hlock, hsum, rfl, rfl⟩
        exact ⟨_, _, by rw [hs]⟩
      · obtain ⟨slots', t', hrest⟩ := absorbGap_total
          (fun x hx => h x (List.mem_cons_of_mem s hx))
        exact ⟨s :: slots', t', by rw [hrest]⟩

/-- **The writing half never fails** on slots whose deposits fit together. -/
theorem lockEligible_total {cap total : ℕ} {slots : List Slot} (htotal : 0 < total)
    (hlen : slots.length < 2 ^ 64) (hvol : flaggedSum (·.aatVolume) slots = total)
    (haff : ∀ s ∈ slots, s.1 = true → Affordable cap total s.2)
    (hfit : ∀ s ∈ slots, s.1 = true → cap * s.2.aatVolume < 2 ^ 128)
    (hdep : flaggedSum (·.usdcDeposited) slots < 2 ^ 64) :
    ∃ slots' locked, lockEligible cap total slots = (slots', .ok locked) := by
  -- what the locks take, and what one more participant could add, is covered by the deposits
  have hshares : ∀ l : List Slot, (∀ s ∈ l, s.1 = true → Affordable cap total s.2) →
      flaggedSum (fun r => share cap total r.aatVolume) l ≤ flaggedSum (·.usdcDeposited) l := by
    intro l hl
    refine List.sum_le_sum fun s hs => ?_
    obtain ⟨hmem, hflag⟩ := List.mem_filter.mp hs
    exact (hl s hmem hflag).2
  have hbase := hshares slots haff
  obtain ⟨slots₁, t, hloop⟩ := forWrite_lockShare_total (t := 0) htotal haff hfit (by omega)
  obtain ⟨rfl, rfl⟩ := forWrite_lockShare haff hloop
  rw [lockEligible, hloop]
  dsimp only
  split_ifs with hgap
  · exact ⟨_, _, rfl⟩
  · have hlt := amount_lt_sum_share (slots.filter Prod.fst) (fun s => s.2.aatVolume) cap hvol
      htotal
    have hcount : (slots.filter Prod.fst).length ≤ slots.length := List.length_filter_le _ _
    have hgapfit : cap - (0 + flaggedSum (fun r => share cap total r.aatVolume) slots)
        < 2 ^ 64 := by
      simp only [flaggedSum] at hlt ⊢
      omega
    rw [tryFrom_of_lt hgapfit, arith_some]
    refine absorbGap_total fun s hs hflag hle => ?_
    obtain ⟨⟨el, r⟩, hmem, rfl⟩ := List.mem_map.mp hs
    cases el with
    | false => simp [lockedSlot] at hflag
    | true =>
        have hr : share cap total r.aatVolume ≤ r.usdcDeposited := (haff _ hmem rfl).2
        obtain ⟨pre, post, rfl⟩ := List.append_of_mem hmem
        have hpre := hshares pre fun x hx => haff x (by simp [hx])
        have hpost := hshares post fun x hx => haff x (by simp [hx])
        simp only [lockedSlot, if_true] at hle ⊢
        simp only [flaggedSum, List.filter_append, List.filter_cons, if_true, List.map_append,
          List.map_cons, List.sum_append, List.sum_cons] at hdep hpre hpost hle hbase ⊢
        omega

/-- The deposits fit a machine word together, and the volumes are within the global limit. -/
structure PoolInRange (investors : List InvestorRecord) : Prop where
  count : investors.length ≤ MAX_INVESTORS
  deposits : (investors.map InvestorRecord.usdcDeposited).sum < 2 ^ 64
  volumes : poolVolume investors ≤ MAX_TOTAL_AAT_VOLUME

/-- Whoever passes the first filter holds half the cap, so the cap has no more than 66 bits. -/
lemma PoolInRange.product_lt {investors : List InvestorRecord} (h : PoolInRange investors) {cap : ℕ}
    {r : InvestorRecord} (hr : r ∈ investors) (helig : initiallyEligible cap r = true) :
    cap * r.aatVolume < 2 ^ 128 := by
  have hdep : r.usdcDeposited ≤ (investors.map InvestorRecord.usdcDeposited).sum :=
    List.single_le_sum (fun _ _ => Nat.zero_le _) _ (List.mem_map_of_mem hr)
  have hvol : r.aatVolume ≤ poolVolume investors :=
    List.single_le_sum (fun _ _ => Nat.zero_le _) _ (List.mem_map_of_mem hr)
  have hlt := h.deposits
  simp only [initiallyEligible, decide_eq_true_eq] at helig
  have hcap : cap < 2 ^ 66 := by omega
  calc cap * r.aatVolume ≤ 2 ^ 66 * MAX_TOTAL_AAT_VOLUME :=
        Nat.mul_le_mul hcap.le (hvol.trans h.volumes)
    _ < 2 ^ 128 := by decide

/-- The read-only half finds participants, or finds nobody. -/
lemma PoolInRange.selectEligible_total {investors : List InvestorRecord} {size price d cap : ℕ}
    (h : PoolInRange investors) (hcap : roundCapUsdc size price d = .ok cap) (hpos : 0 < cap) :
    (∃ slots total, selectEligible investors size price d = .ok (cap, slots, total)) ∨
      selectEligible investors size price d = .error (.Program .NoEligibleInvestors) := by
  set slots : List Slot := investors.map fun r => (initiallyEligible cap r, r) with hslots
  have hsel : selectEligible investors size price d
      = (eliminate cap (slots.length + 1) slots >>= fun r => .ok (cap, r.1, r.2)) := by
    rw [selectEligible, hcap, ok_bind, ensure_of _ hpos, ok_bind, require_of _ h.count, ok_bind]
    rfl
  have hfuel : flaggedCount slots < slots.length + 1 :=
    Nat.lt_succ_of_le (List.length_filter_le _ _)
  have hvol : flaggedSum (·.aatVolume) slots < 2 ^ 64 := by
    have hrec : slots.map Prod.snd = investors := by
      rw [hslots, List.map_map]
      exact List.map_id _
    have hle := flaggedSum_le (·.aatVolume) slots
    rw [hrec] at hle
    calc flaggedSum (·.aatVolume) slots ≤ poolVolume investors := hle
      _ ≤ MAX_TOTAL_AAT_VOLUME := h.volumes
      _ < 2 ^ 64 := by decide
  have hfit : PassFits cap slots := by
    intro s hs hflag
    obtain ⟨r, hr, rfl⟩ := List.mem_map.mp hs
    exact h.product_lt hr hflag
  rcases eliminate_total hfuel hvol hfit with ⟨⟨slots', total⟩, helim⟩ | helim
  · rw [helim, ok_bind] at hsel
    exact .inl ⟨slots', total, hsel⟩
  · rw [helim, error_bind] at hsel
    exact .inr hsel

/-- The writing half then succeeds. -/
lemma PoolInRange.lockEligible_total {investors : List InvestorRecord}
    {size price d cap total : ℕ} {slots : List Slot} (h : PoolInRange investors)
    (hsel : selectEligible investors size price d = .ok (cap, slots, total)) :
    ∃ slots' locked, lockEligible cap total slots = (slots', .ok locked) := by
  obtain ⟨-, rfl, hel, hvol, htotal⟩ := selectEligible_ok hsel
  have hcount : slots.length ≤ MAX_INVESTORS := by simpa using h.count
  have hdep : flaggedSum (·.usdcDeposited) slots < 2 ^ 64 :=
    (flaggedSum_le _ slots).trans_lt h.deposits
  refine Floor.lockEligible_total htotal (hcount.trans_lt (by decide)) hvol
    (fun s hs hflag => (hel s hs hflag).2) (fun s hs hflag => ?_) hdep
  exact h.product_lt (List.mem_map_of_mem hs) (hel s hs hflag).1

/-- **A start on a pool in range either succeeds or finds nobody.**  With a positive cap there is no
other failure, and this one does not touch the pool. -/
theorem executeRoundStart_total {investors : List InvestorRecord} {size price d : ℕ}
    (h : PoolInRange investors) (hd : 10 ^ d < 2 ^ 128) (hsp : size * price < 2 ^ 128)
    (hpos : 0 < size * price / 10 ^ d) :
    (∃ investors' volume locked,
      executeRoundStart investors size price d = (investors', .ok (volume, locked))) ∨
    executeRoundStart investors size price d
      = (investors, .error (.Program .NoEligibleInvestors)) := by
  rcases h.selectEligible_total (roundCapUsdc_eq_ok.mpr ⟨hd, hsp, rfl⟩) hpos with
    ⟨slots, total, hsel⟩ | hsel
  · obtain ⟨slots', locked, hlock⟩ := h.lockEligible_total hsel
    refine .inl ⟨slots'.map Prod.snd, total, locked, ?_⟩
    rw [executeRoundStart, hsel]
    simp only [hlock]
  · right
    rw [executeRoundStart, hsel]

end Floor
