import Mathlib.Data.List.Sort
import FloorProgram.Core.Keyed

/-!
# Sorted lists of records and binary search

A list of records sorted by a key with distinct keys supports lookup by repeated halving.
`binarySearch` is that algorithm with the usual two-variable state, the base of the window and its
size: while the window has more than one element, compare the middle one and keep the half that can
contain the key.  `binarySearch_eq_some_iff` says it is exact on a strictly sorted list, and
`sorted_of_nodup` that sorting a list with distinct keys gives one.
-/

namespace Search

open Keyed

variable {α κ : Type} [LinearOrder κ] (key : α → κ)

/-- Sort by key. -/
def sortByKey (l : List α) : List α := l.insertionSort fun a b => key a ≤ key b

/-- Strictly increasing keys. -/
def StrictSorted (l : List α) : Prop := l.Pairwise fun a b => key a < key b

/-- The halving loop: `size` elements of the window from `base` are left.  `fuel` bounds the number
of rounds; the size is enough, since every round shrinks the window. -/
def halve (k : κ) (l : List α) : (fuel size base : ℕ) → ℕ
  | 0, _, base => base
  | fuel + 1, size, base =>
    if size ≤ 1 then base
    else
      let half := size / 2
      let mid := base + half
      match l[mid]? with
      | some a => halve k l fuel (size - half) (if k < key a then base else mid)
      | none => base

/-- Binary search for the record with key `k`. -/
def binarySearch (k : κ) (l : List α) : Option ℕ :=
  match l[halve key k l l.length l.length 0]? with
  | some a => if key a = k then some (halve key k l l.length l.length 0) else none
  | none => none

variable {key} {k : κ} {l : List α}

/-! ## Sorting -/

lemma sortByKey_perm (l : List α) : (sortByKey key l).Perm l := List.perm_insertionSort _ l

lemma sorted_of_nodup (h : NodupKeys key l) : StrictSorted key (sortByKey key l) := by
  have htotal : Std.Total (fun a b : α => key a ≤ key b) := ⟨fun a b => le_total _ _⟩
  have htrans : IsTrans α (fun a b : α => key a ≤ key b) := ⟨fun _ _ _ => le_trans⟩
  have hle := List.pairwise_insertionSort (fun a b : α => key a ≤ key b) l
  have hne : (sortByKey key l).Pairwise fun a b => key a ≠ key b := by
    have : NodupKeys key (sortByKey key l) := ((sortByKey_perm l).map key).nodup_iff.mpr h
    simpa [NodupKeys, List.Nodup, List.pairwise_map] using this
  exact (List.Pairwise.and hle hne).imp fun h => lt_of_le_of_ne h.1 h.2

lemma StrictSorted.nodupKeys (h : StrictSorted key l) : NodupKeys key l := by
  rw [NodupKeys, List.Nodup, List.pairwise_map]
  exact h.imp ne_of_lt

/-- Rewriting records without touching their keys keeps the order. -/
lemma StrictSorted.of_map_key {l' : List α} (h : StrictSorted key l)
    (hkeys : l'.map key = l.map key) : StrictSorted key l' := by
  rw [StrictSorted, ← List.pairwise_map (f := key) (R := (· < ·))] at h ⊢
  rw [hkeys]
  exact h

/-! ## The search -/

lemma StrictSorted.key_lt (h : StrictSorted key l) {i j : ℕ} (hij : i < j) (hj : j < l.length) :
    key l[i] < key l[j] :=
  List.pairwise_iff_getElem.mp h i j (hij.trans hj) hj hij

/-- The window keeps the position of the key it is looking for. -/
lemma halve_eq (h : StrictSorted key l) {i : ℕ} (hi : i < l.length) (hk : key l[i] = k) :
    ∀ (fuel size base : ℕ), size ≤ fuel → base ≤ i → i < base + size → base + size ≤ l.length →
      halve key k l fuel size base = i
  | 0, size, base, hfuel, hlo, hhi, _ => by omega
  | fuel + 1, size, base, hfuel, hlo, hhi, hlen => by
      rw [halve]
      by_cases hsize : size ≤ 1
      · rw [if_pos hsize]; omega
      · rw [if_neg hsize]
        have hmid : base + size / 2 < l.length := by omega
        simp only [List.getElem?_eq_getElem hmid]
        by_cases hcmp : k < key l[base + size / 2]
        · -- the middle key is too large, so the position lies in the lower half
          have hlt : i < base + size / 2 := by
            by_contra hge
            rcases Nat.eq_or_lt_of_le (Nat.le_of_not_lt hge) with heq | hgt
            · exact absurd hk (ne_of_gt (by simpa [heq] using hcmp))
            · have := h.key_lt hgt hi
              exact absurd (hcmp.trans this) (by rw [hk]; exact lt_irrefl _)
          rw [if_pos hcmp]
          exact halve_eq h hi hk fuel _ _ (by omega) hlo (by omega) (by omega)
        · have hge : base + size / 2 ≤ i := by
            by_contra hlt
            have := h.key_lt (Nat.lt_of_not_le hlt) hmid
            exact hcmp (hk ▸ this)
          rw [if_neg hcmp]
          exact halve_eq h hi hk fuel _ _ (by omega) hge (by omega) (by omega)

/-- A position the search returns holds the key, sorted or not. -/
lemma binarySearch_sound {i : ℕ} (h : binarySearch key k l = some i) :
    ∃ hi : i < l.length, key l[i] = k := by
  rw [binarySearch] at h
  split at h
  · rename_i a ha
    split_ifs at h with hk
    obtain rfl := Option.some.inj h
    obtain ⟨hi, rfl⟩ := List.getElem?_eq_some_iff.mp ha
    exact ⟨hi, hk⟩
  · simp at h

/-- **The search is exact on a strictly sorted list.** -/
theorem binarySearch_eq_some_iff (h : StrictSorted key l) {i : ℕ} :
    binarySearch key k l = some i ↔ ∃ hi : i < l.length, key l[i] = k := by
  refine ⟨binarySearch_sound, fun ⟨hi, hk⟩ => ?_⟩
  have hw := halve_eq h hi hk l.length l.length 0 le_rfl (Nat.zero_le _) (by omega) (by omega)
  rw [binarySearch, hw, List.getElem?_eq_getElem hi]
  simp [hk]

end Search
