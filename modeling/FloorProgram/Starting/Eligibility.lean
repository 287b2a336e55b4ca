import FloorProgram.Core.Pruning
import FloorProgram.Lemmas.StartRound
import Mathlib.Algebra.BigOperators.Fin
import Mathlib.Algebra.Order.BigOperators.Group.Finset

/-!
# Who takes part in a round

The elimination loop of `execute_round_start` drops, pass by pass, every candidate that cannot pay
its share of the cap.  A pass divides the cap by the volume of all candidates it started with, and
every drop raises the shares of those that are left, so the drops cascade.

Seen as a set of slots (`slotsOf`), the candidates are pruned by a hereditary test in the sense of
`Pruning`: the fewer take part, the more each has to pay.  So the loop ends with the greatest set of
candidates that can pay for a round together (`elimination_greatest`).
-/

namespace Floor

open Checked Loop ProRata

/-! ## The fuel -/

/-- More fuel than flagged slots is never used up: every pass but the last drops one. -/
lemma eliminate_fuel {cap : ℕ} :
    ∀ {fuel fuel' : ℕ} {slots : List Slot}, flaggedCount slots < fuel → flaggedCount slots < fuel' →
      eliminate cap fuel slots = eliminate cap fuel' slots
  | 0, _, _, h, _ => absurd h (Nat.not_lt_zero _)
  | _, 0, _, _, h => absurd h (Nat.not_lt_zero _)
  | fuel + 1, fuel' + 1, slots, h, h' => by
      rw [eliminate_succ, eliminate_succ]
      by_cases hdrop : Drops cap (flaggedSum (·.aatVolume) slots) slots
      · have hlt := flaggedCount_keepSlot_lt hdrop
        have hrest : eliminate cap fuel (slots.map (keepSlot cap (flaggedSum (·.aatVolume) slots)))
            = eliminate cap fuel' (slots.map (keepSlot cap (flaggedSum (·.aatVolume) slots))) :=
          eliminate_fuel (by omega) (by omega)
        rw [hrest]
      · simp only [hdrop, if_false]

/-! ## The candidates as a set of slots -/

section Sets

variable (cap : ℕ) (investors : List InvestorRecord)

/-- The slots, flagged by a set of indices. -/
def slotsOf (S : Finset (Fin investors.length)) : List Slot :=
  (List.finRange investors.length).map fun i => (decide (i ∈ S), investors.get i)

/-- The total AAT volume of a set of slots. -/
def volumeOf (S : Finset (Fin investors.length)) : ℕ := ∑ i ∈ S, (investors.get i).aatVolume

/-- The records with a deposit of at least half the cap and a positive volume. -/
def candidates : Finset (Fin investors.length) :=
  Finset.univ.filter fun i => 0 < (investors.get i).usdcDeposited ∧
    0 < (investors.get i).aatVolume ∧ cap / 2 ≤ (investors.get i).usdcDeposited

/-- The deposit covers the share of the cap that falls to slot `i` if `S` takes part. -/
def CanPay (S : Finset (Fin investors.length)) (i : Fin investors.length) : Prop :=
  cap * (investors.get i).aatVolume / volumeOf investors S ≤ (investors.get i).usdcDeposited

instance (S : Finset (Fin investors.length)) : DecidablePred (CanPay cap investors S) :=
  fun _ => inferInstanceAs (Decidable (_ ≤ _))

variable {cap investors} {S : Finset (Fin investors.length)}

lemma flaggedSum_slotsOf (f : InvestorRecord → ℕ) :
    flaggedSum f (slotsOf investors S) = ∑ i ∈ S, f (investors.get i) := by
  have hsum : ∀ l : List (Fin investors.length),
      flaggedSum f (l.map fun i => (decide (i ∈ S), investors.get i))
        = (l.map fun i => if i ∈ S then f (investors.get i) else 0).sum := by
    intro l
    induction l with
    | nil => rfl
    | cons i l ih =>
        simp only [List.map_cons, flaggedSum_cons, List.sum_cons, ih, decide_eq_true_eq]
  rw [slotsOf, hsum, ← Fin.sum_univ_def, Finset.sum_ite_mem, Finset.univ_inter]

lemma flaggedCount_slotsOf : flaggedCount (slotsOf investors S) = S.card := by
  have hcount : flaggedCount (slotsOf investors S)
      = flaggedSum (fun _ => 1) (slotsOf investors S) := by
    simp [flaggedCount, flaggedSum]
  rw [hcount, flaggedSum_slotsOf, Finset.card_eq_sum_ones]

lemma slotsOf_candidates :
    (investors.map fun r => (initiallyEligible cap r, r))
      = slotsOf investors (candidates cap investors) := by
  conv_lhs => rw [← List.map_get_finRange investors]
  rw [slotsOf, List.map_map]
  refine List.map_congr_left fun i _ => ?_
  simp [initiallyEligible, candidates]

lemma map_keepSlot_slotsOf (V : ℕ) :
    (slotsOf investors S).map (keepSlot cap V)
      = slotsOf investors (S.filter fun i => Affordable cap V (investors.get i)) := by
  rw [slotsOf, slotsOf, List.map_map]
  refine List.map_congr_left fun i _ => ?_
  simp [keepSlot]

lemma drops_slotsOf {V : ℕ} :
    Drops cap V (slotsOf investors S) ↔ ∃ i ∈ S, ¬ Affordable cap V (investors.get i) := by
  simp [Drops, slotsOf]

/-! ## The loop as pruning -/

open Pruning

lemma aatVolume_le_volumeOf {i : Fin investors.length} (hi : i ∈ S) :
    (investors.get i).aatVolume ≤ volumeOf investors S :=
  Finset.single_le_sum (f := fun j => (investors.get j).aatVolume) (fun _ _ => Nat.zero_le _) hi

/-- **The fewer take part, the more each has to pay.** -/
lemma hereditary_canPay (cap : ℕ) (investors : List InvestorRecord) :
    Hereditary (CanPay cap investors) := by
  intro S T i hST hi hpay
  have hle : volumeOf investors S ≤ volumeOf investors T :=
    Finset.sum_le_sum_of_subset hST
  have hvol := aatVolume_le_volumeOf hi
  rcases Nat.eq_zero_or_pos (volumeOf investors S) with h0 | hpos
  · -- nobody in the set has a volume, so nobody has to pay anything
    have hzero : (investors.get i).aatVolume = 0 := by omega
    simp only [CanPay, hzero, Nat.mul_zero, Nat.zero_div]
    exact Nat.zero_le _
  · exact (Nat.div_le_div_left hle hpos).trans hpay

/-- Among candidates whose volumes sum to at most the cap no share rounds to zero, so the test of
the loop is the test of `CanPay`. -/
lemma affordable_iff_canPay (hS : S ⊆ candidates cap investors)
    (hcap : volumeOf investors (candidates cap investors) ≤ cap) {i : Fin investors.length}
    (hi : i ∈ S) :
    Affordable cap (volumeOf investors S) (investors.get i) ↔ CanPay cap investors S i := by
  have hvolume : 0 < (investors.get i).aatVolume := (Finset.mem_filter.mp (hS hi)).2.2.1
  have hle : volumeOf investors S ≤ cap := (Finset.sum_le_sum_of_subset hS).trans hcap
  have hmem := aatVolume_le_volumeOf hi
  have hpos : 0 < share cap (volumeOf investors S) (investors.get i).aatVolume := by
    refine Nat.div_pos ?_ (hvolume.trans_le hmem)
    exact hle.trans (Nat.le_mul_of_pos_right _ hvolume)
  exact and_iff_right hpos

/-- **The loop prunes the candidates** until the set is stable; it fails with nobody left, and only
then. -/
lemma eliminate_slotsOf (hcap : volumeOf investors (candidates cap investors) ≤ cap) :
    ∀ {fuel : ℕ} {S : Finset (Fin investors.length)}, S ⊆ candidates cap investors →
      S.card < fuel →
      eliminate cap fuel (slotsOf investors S) ≠ .error (.Program .ArithmeticOverflow) →
      ∃ n, Stable (CanPay cap investors) ((prune (CanPay cap investors))^[n] S) ∧
        eliminate cap fuel (slotsOf investors S) =
          if (prune (CanPay cap investors))^[n] S = ∅ then .error (.Program .NoEligibleInvestors)
          else .ok (slotsOf investors ((prune (CanPay cap investors))^[n] S),
            volumeOf investors ((prune (CanPay cap investors))^[n] S))
  | 0, _, _, hfuel, _ => absurd hfuel (Nat.not_lt_zero _)
  | fuel + 1, S, hS, hfuel, hno => by
      rw [eliminate_succ] at hno ⊢
      rw [flaggedSum_slotsOf] at hno ⊢
      rw [show ∑ i ∈ S, (investors.get i).aatVolume = volumeOf investors S from rfl] at hno ⊢
      by_cases hlt : volumeOf investors S < 2 ^ 64
      swap
      · exact absurd (if_pos hlt) hno
      rw [if_neg (not_not.mpr hlt)] at hno ⊢
      have hempty : volumeOf investors S = 0 ↔ S = ∅ := by
        refine ⟨fun h0 => Finset.eq_empty_of_forall_notMem fun i hi => ?_,
          fun h => by simp [volumeOf, h]⟩
        have hvolume : 0 < (investors.get i).aatVolume := (Finset.mem_filter.mp (hS hi)).2.2.1
        exact hvolume.ne' ((Finset.sum_eq_zero_iff.mp h0) i hi)
      by_cases hnone : S = ∅
      · refine ⟨0, ?_, ?_⟩
        · intro i hi
          simp [hnone] at hi
        · rw [if_pos (hempty.mpr hnone), Function.iterate_zero, id_eq, if_pos hnone]
      rw [if_neg (mt hempty.mp hnone)] at hno ⊢
      by_cases hfit : PassFits cap (slotsOf investors S)
      swap
      · exact absurd (if_pos hfit) hno
      rw [if_neg (not_not.mpr hfit)] at hno ⊢
      by_cases hdrop : Drops cap (volumeOf investors S) (slotsOf investors S)
      · have hprune : (S.filter fun i => Affordable cap (volumeOf investors S) (investors.get i))
            = prune (CanPay cap investors) S :=
          Finset.filter_congr fun i hi => affordable_iff_canPay hS hcap hi
        have hstable : ¬ Stable (CanPay cap investors) S := by
          intro hstable
          obtain ⟨i, hi, hna⟩ := drops_slotsOf.mp hdrop
          exact hna ((affordable_iff_canPay hS hcap hi).mpr (hstable i hi))
        have hcard := card_prune_lt hstable
        rw [if_pos hdrop, map_keepSlot_slotsOf, hprune] at hno ⊢
        obtain ⟨n, hn, hresult⟩ :=
          eliminate_slotsOf hcap (prune_subset.trans hS) (by omega) hno
        exact ⟨n + 1, hn, hresult⟩
      · rw [if_neg hdrop]
        refine ⟨0, fun i hi => ?_, by rw [Function.iterate_zero, id_eq, if_neg hnone]⟩
        by_contra hna
        exact hdrop (drops_slotsOf.mpr
          ⟨i, hi, fun haff => hna ((affordable_iff_canPay hS hcap hi).mp haff)⟩)

/-! ## The greatest affordable set -/

/-- The first half of a round start is the loop, once the cap is known. -/
lemma selectEligible_eq {size price d : ℕ} (hd : 10 ^ d < 2 ^ 128) (hmul : size * price < 2 ^ 128)
    (hcap : 0 < size * price / 10 ^ d) (hlen : investors.length ≤ MAX_INVESTORS) :
    selectEligible investors size price d
      = (eliminate (size * price / 10 ^ d) (investors.length + 1)
          (slotsOf investors (candidates (size * price / 10 ^ d) investors))
          >>= fun r => .ok (size * price / 10 ^ d, r.1, r.2)) := by
  rw [selectEligible, roundCapUsdc_eq_ok.mpr ⟨hd, hmul, rfl⟩, ok_bind, ensure_of _ hcap, ok_bind,
    require_of _ hlen, ok_bind, slotsOf_candidates]
  dsimp only
  rw [slotsOf, List.length_map, List.length_finRange]
  rfl

/-- A product that does not fit is an arithmetic error. -/
lemma selectEligible_overflow {size price d : ℕ} (hd : 10 ^ d < 2 ^ 128)
    (hmul : ¬ size * price < 2 ^ 128) :
    selectEligible investors size price d = .error (.Program .ArithmeticOverflow) := by
  have hnone : checkedMul 128 size price = none := if_neg hmul
  rw [selectEligible, roundCapUsdc, walnScale_eq_ok.mpr ⟨hd, rfl⟩, ok_bind, mulDiv, hnone]
  rfl

/-- The second half of a round start has no error but arithmetic ones. -/
lemma executeRoundStart_noEligible_iff {size price d : ℕ} :
    (executeRoundStart investors size price d).2 = .error (.Program .NoEligibleInvestors) ↔
      selectEligible investors size price d = .error (.Program .NoEligibleInvestors) := by
  unfold executeRoundStart
  split
  · rename_i e hsel
    rw [hsel]
    simp
  · rename_i cap slots volume hsel
    rw [hsel]
    refine iff_of_false ?_ (by simp)
    split
    · rename_i slots' e hlock
      have hfails := lockEligible_failsOnly cap volume slots
      rw [hlock] at hfails
      intro he
      have hover : e = .Program .ArithmeticOverflow := hfails e rfl
      simp [hover] at he
    · simp

/-- What the loop returns for a set of participants. -/
def eliminated (E : Finset (Fin investors.length)) : Except TxError (List Slot × ℕ) :=
  if E = ∅ then .error (.Program .NoEligibleInvestors)
  else .ok (slotsOf investors E, volumeOf investors E)

/-- The run of the loop: with any fuel above the number of candidates it returns the greatest
affordable set. -/
lemma exists_eliminated {size price d : ℕ} (hlen : investors.length ≤ MAX_INVESTORS)
    (hd : 10 ^ d < 2 ^ 128) (hcap : 1 ≤ size * price / 10 ^ d)
    (hvol : volumeOf investors (candidates (size * price / 10 ^ d) investors)
      ≤ size * price / 10 ^ d)
    (hno : selectEligible investors size price d ≠ .error (.Program .ArithmeticOverflow)) :
    ∃ E, IsGreatest {S | S ⊆ candidates (size * price / 10 ^ d) investors ∧
        ∀ i ∈ S, CanPay (size * price / 10 ^ d) investors S i} E ∧
      (∀ fuel, (candidates (size * price / 10 ^ d) investors).card < fuel →
        eliminate (size * price / 10 ^ d) fuel
          (slotsOf investors (candidates (size * price / 10 ^ d) investors)) = eliminated E) ∧
      selectEligible investors size price d
        = (eliminated E >>= fun r => .ok (size * price / 10 ^ d, r.1, r.2)) := by
  set C := candidates (size * price / 10 ^ d) investors
  have hmul : size * price < 2 ^ 128 := by
    by_contra hmul
    exact hno (selectEligible_overflow hd hmul)
  have hsel := selectEligible_eq hd hmul hcap hlen
  have hcard : C.card < investors.length + 1 := by
    have := Finset.card_le_univ C
    rw [Fintype.card_fin] at this
    omega
  have hnoLoop : eliminate (size * price / 10 ^ d) (investors.length + 1) (slotsOf investors C)
      ≠ .error (.Program .ArithmeticOverflow) := by
    intro hover
    rw [hsel, hover] at hno
    exact hno rfl
  obtain ⟨n, hstable, hloop⟩ := eliminate_slotsOf hvol (Finset.Subset.refl C) hcard hnoLoop
  refine ⟨_, isGreatest_iterate_prune (hereditary_canPay _ investors) hstable, fun fuel hfuel => ?_,
    hsel.trans (by rw [hloop]; rfl)⟩
  rw [← show eliminate _ _ (slotsOf investors C) = eliminated _ from hloop]
  refine eliminate_fuel ?_ ?_
  · rw [flaggedCount_slotsOf]
    exact hfuel
  · rw [flaggedCount_slotsOf]
    exact hcard

/-- **The elimination finds the greatest affordable set.**  If the cap is at least the volume of all
candidates and no arithmetic fails, the loop ends after at most one more passes than there are
candidates.  It leaves the greatest set of candidates that can pay their shares of the cap together,
and its volume, or fails if that set is empty; there is nobody left exactly when only the empty set
can pay. -/
theorem elimination_greatest {size price d : ℕ} (hlen : investors.length ≤ MAX_INVESTORS)
    (hd : 10 ^ d < 2 ^ 128) (hcap : 1 ≤ size * price / 10 ^ d)
    (hvol : volumeOf investors (candidates (size * price / 10 ^ d) investors)
      ≤ size * price / 10 ^ d)
    (hno : selectEligible investors size price d ≠ .error (.Program .ArithmeticOverflow)) :
    let cap := size * price / 10 ^ d
    let C := candidates cap investors
    let slots := investors.map fun r => (initiallyEligible cap r, r)
    (eliminate cap (C.card + 1) slots ≠ .error .Panicked ∧
      ∀ fuel, C.card + 1 ≤ fuel → eliminate cap fuel slots = eliminate cap (C.card + 1) slots) ∧
    ∃ E, IsGreatest {S | S ⊆ C ∧ ∀ i ∈ S, CanPay cap investors S i} E ∧
      selectEligible investors size price d
        = (if E = ∅ then .error (.Program .NoEligibleInvestors)
          else .ok (cap, slotsOf investors E, volumeOf investors E)) ∧
      ((executeRoundStart investors size price d).2 = .error (.Program .NoEligibleInvestors) ↔
        ∀ S ⊆ C, (∀ i ∈ S, CanPay cap investors S i) → S = ∅) ∧
      ∀ volume locked, (executeRoundStart investors size price d).2 = .ok (volume, locked) →
        volume = volumeOf investors E := by
  intro cap C slots
  obtain ⟨E, hgreatest, hloop, hsel⟩ := exists_eliminated hlen hd hcap hvol hno
  have hselected : selectEligible investors size price d
      = if E = ∅ then .error (.Program .NoEligibleInvestors)
        else .ok (cap, slotsOf investors E, volumeOf investors E) := by
    rw [hsel, eliminated]
    split_ifs <;> rfl
  have hslots : slots = slotsOf investors C := slotsOf_candidates
  refine ⟨⟨?_, fun fuel hfuel => ?_⟩, E, hgreatest, hselected, ?_, ?_⟩
  · rw [hslots, hloop _ (Nat.lt_succ_self _), eliminated]
    split_ifs <;> simp
  · rw [hslots, hloop _ hfuel, hloop _ (Nat.lt_succ_self _)]
  · rw [executeRoundStart_noEligible_iff, hselected]
    constructor
    · intro hnone S hS hpay
      split_ifs at hnone with hempty
      exact Finset.subset_empty.mp (hempty ▸ hgreatest.2 ⟨hS, hpay⟩)
    · intro hall
      rw [if_pos (hall E hgreatest.1.1 hgreatest.1.2)]
  · intro volume locked hok
    obtain ⟨cap', slots', _, hok, -⟩ := executeRoundStart_split (Prod.ext rfl hok)
    rw [hselected] at hok
    split_ifs at hok
    simp only [Except.ok.injEq, Prod.mk.injEq] at hok
    exact hok.2.2.symm

/-- Three records of which the first cannot pay its share of a hundred.  Without it the second
cannot either, and the third is left to pay for the round alone. -/
def cascade : List InvestorRecord :=
  [{ InvestorRecord.empty 21 with usdcDeposited := 50, aatVolume := 60 },
   { InvestorRecord.empty 22 with usdcDeposited := 50, aatVolume := 24 },
   { InvestorRecord.empty 23 with usdcDeposited := 100, aatVolume := 16 }]

theorem elimination_greatest_cascade :
    (executeRoundStart cascade 1000000000 100 9).2 = .ok (16, 100) ∧
      ∃ E, IsGreatest {S | S ⊆ candidates 100 cascade ∧ ∀ i ∈ S, CanPay 100 cascade S i} E ∧
        volumeOf cascade E = 16 := by
  have hstart : (executeRoundStart cascade 1000000000 100 9).2 = .ok (16, 100) := by rfl
  have hno : selectEligible cascade 1000000000 100 9 ≠ .error (.Program .ArithmeticOverflow) := by
    intro hover
    rw [executeRoundStart, hover] at hstart
    simp at hstart
  have hlen : cascade.length ≤ MAX_INVESTORS := by decide
  have hvol : volumeOf cascade (candidates (1000000000 * 100 / 10 ^ 9) cascade)
      ≤ 1000000000 * 100 / 10 ^ 9 := by decide
  obtain ⟨-, E, hgreatest, -, -, hvolume⟩ :=
    elimination_greatest hlen (by decide) (by decide) hvol hno
  exact ⟨hstart, E, hgreatest, (hvolume 16 100 hstart).symm⟩

end Sets

end Floor
