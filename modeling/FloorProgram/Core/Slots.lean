import FloorProgram.Core.Keyed
import FloorProgram.Core.Loop

/-!
# Arrays with a count

A list kept in an array of fixed size: the first `count` items are the list, and the others are
free.  This file says what the in-place updates of such an array do to the list in it.

* `live`, `rest` — the list, and the free items behind it.
* `live_set`, `live_push`, `live_remove`, `live_overwrite` — assigning to an item, taking the next
  free one, moving the last into the place of another, and writing all of them.
* `map_forLive` — a loop over the indices in use that reads, changes and writes each item is the
  loop `forMut` over the list.
* `Tidy` — the free items hold a blank.  Every update keeps that, and a tidy array is determined by
  its list (`Tidy.ext`).
-/

/-- An array of `n` items of which the first `count` are in use. -/
structure Slots (α : Type) (n : ℕ) where
  count : ℕ
  items : Vector α n
  count_le : count ≤ n

namespace Slots

open Checked Loop

variable {α : Type} {n : ℕ}

/-- The items in use. -/
def live (s : Slots α n) : List α := s.items.toList.take s.count

/-- The items not in use. -/
def rest (s : Slots α n) : List α := s.items.toList.drop s.count

/-- Nothing in use. -/
def empty (blank : α) : Slots α n := ⟨0, Vector.replicate n blank, Nat.zero_le _⟩

/-- Assign to an item. -/
def set (i : ℕ) (a : α) (s : Slots α n) : Slots α n :=
  { s with items := s.items.setIfInBounds i a }

/-- Take the next free item, if there is one. -/
def push (a : α) (s : Slots α n) : Option (Slots α n) :=
  if h : s.count < n then some ⟨s.count + 1, s.items.setIfInBounds s.count a, h⟩ else none

/-- Move the last item in use to `i`, and leave a blank where it was. -/
def remove (blank : α) (i : ℕ) (s : Slots α n) : Option (Slots α n) :=
  s.items[s.count - 1]?.map fun moved =>
    ⟨s.count - 1, (s.items.setIfInBounds i moved).setIfInBounds (s.count - 1) blank,
      (Nat.sub_le _ _).trans s.count_le⟩

/-- Write the items of a list to the front. -/
def overwrite (l : List α) (s : Slots α n) : Slots α n :=
  { s with items := Vector.ofFn fun i => l[i.val]?.getD s.items[i] }

/-- One iteration of a loop over the items: read item `i`, run the body on it, write it back. -/
def step {ε σ : Type} (body : σ → α → Except ε (α × σ)) (p : Slots α n × σ) (i : ℕ) :
    Except ε (Slots α n × σ) :=
  match p.1.items[i]? with
  | some a => do
    let (a', t') ← body p.2 a
    return (p.1.set i a', t')
  | none => .ok p

/-- Iterate over the items in use, in place. -/
def forLive {ε σ : Type} (body : σ → α → Except ε (α × σ)) (t : σ) (s : Slots α n) :
    Except ε (Slots α n × σ) :=
  (List.range' 0 s.count).foldlM (step body) (s, t)

/-- The free items hold `blank`. -/
def Tidy (blank : α) (s : Slots α n) : Prop := s.rest = List.replicate (n - s.count) blank

variable {r s t : Slots α n} {i : ℕ} {a blank : α} {l : List α}

@[simp] lemma length_live : s.live.length = s.count := by simp [live, s.count_le]

lemma live_append_rest : s.live ++ s.rest = s.items.toList := List.take_append_drop _ _

/-- Below the count the array is read like the live list. -/
lemma getElem?_items (hi : i < s.count) : s.items[i]? = s.live[i]? := by
  rw [live, List.getElem?_take_of_lt hi, Vector.getElem?_toList]

/-! ## Updates -/

/-- A write below the count is one to the live list. -/
lemma live_set : (s.set i a).live = s.live.set i a := by
  rw [live, set, Vector.toList_setIfInBounds, List.take_set]
  rfl

/-- A write below the count leaves the rest alone. -/
lemma rest_set (hi : i < s.count) : (s.set i a).rest = s.rest := by
  rw [rest, set, Vector.toList_setIfInBounds, List.drop_set, if_pos hi]
  rfl

/-- There is room for one more unless the array is full. -/
lemma push_eq_some (hn : s.count < n) : ∃ t, s.push a = some t := ⟨_, dif_pos hn⟩

/-- A push appends to the live list. -/
lemma live_push (h : s.push a = some t) : t.live = s.live ++ [a] := by
  rw [push] at h
  split_ifs at h with hn
  obtain rfl := Option.some.inj h
  have hlen : s.count < s.items.toList.length := by simpa using hn
  simp only [live, Vector.toList_setIfInBounds, List.take_set,
    List.take_succ_eq_append_getElem hlen]
  rw [List.set_append_right _ _ (by simp [s.count_le])]
  simp [s.count_le]

/-- A push takes the first of the free slots. -/
lemma rest_push (h : s.push a = some t) : t.rest = s.rest.tail := by
  rw [push] at h
  split_ifs at h with hn
  obtain rfl := Option.some.inj h
  simp only [rest, Vector.toList_setIfInBounds, List.drop_set, if_pos (Nat.lt_succ_self _),
    List.tail_drop]

/-- A slot in use can be freed. -/
lemma remove_eq_some (hi : i < s.count) : ∃ t, s.remove blank i = some t := by
  have hlast : s.count - 1 < n := by
    have := s.count_le
    omega
  exact ⟨_, by rw [remove, Vector.getElem?_eq_getElem hlast]; rfl⟩

/-- **Removal** moves the last record into the place of the removed one. -/
lemma live_remove (hi : i < s.count) (h : s.remove blank i = some t) :
    t.live = Keyed.swapRemove i s.live := by
  obtain ⟨moved, hmoved, rfl⟩ := Option.map_eq_some_iff.mp h
  have hlast : s.live.getLast? = some moved := by
    rw [List.getLast?_eq_getElem?, length_live, ← getElem?_items (by omega)]
    exact hmoved
  have hlen : (s.live.set i moved).length = s.count := by simp
  have hswap : Keyed.swapRemove i s.live = (s.live.set i moved).dropLast := by
    rw [Keyed.swapRemove, hlast]
  rw [hswap, List.dropLast_eq_take, hlen]
  simp only [live, Vector.toList_setIfInBounds]
  rw [List.take_set_of_le (le_refl _), List.take_set, List.take_set, List.take_take,
    min_eq_left (Nat.sub_le _ _)]

/-- The freed slot is blank, in front of the others. -/
lemma rest_remove (hi : i < s.count) (h : s.remove blank i = some t) :
    t.rest = blank :: s.rest := by
  obtain ⟨moved, -, rfl⟩ := Option.map_eq_some_iff.mp h
  have hlen : s.count - 1 < (s.items.toList.set i moved).length := by
    have := s.count_le
    simp only [List.length_set, Vector.length_toList]
    omega
  have hsucc : s.count - 1 + 1 = s.count := by omega
  simp only [rest, Vector.toList_setIfInBounds]
  rw [List.drop_set, if_neg (lt_irrefl _), Nat.sub_self, List.drop_eq_getElem_cons hlen,
    List.set_cons_zero, hsucc, List.drop_set, if_pos hi]

/-- Writing the live list back keeps the rest of the array. -/
lemma toList_overwrite (hl : l.length = s.count) :
    (s.overwrite l).items.toList = l ++ s.rest := by
  refine List.ext_getElem? fun i => ?_
  rw [overwrite, Vector.toList_ofFn, List.getElem?_ofFn]
  by_cases hi : i < s.count
  · have hn := hi.trans_le s.count_le
    rw [dif_pos hn, List.getElem?_append_left (hl.symm ▸ hi),
      List.getElem?_eq_getElem (hl.symm ▸ hi)]
    rfl
  · have hnone : l[i]? = none := List.getElem?_eq_none (by omega)
    rw [List.getElem?_append_right (by omega), rest, List.getElem?_drop, hl,
      Nat.add_sub_of_le (by omega), Vector.getElem?_toList]
    split_ifs with hn <;> simp [hn, hnone]

lemma live_overwrite (hl : l.length = s.count) : (s.overwrite l).live = l := by
  rw [live, toList_overwrite hl]
  exact List.take_left' hl

lemma rest_overwrite (hl : l.length = s.count) : (s.overwrite l).rest = s.rest := by
  rw [rest, toList_overwrite hl]
  exact List.drop_left' hl

/-! ## Loops -/

section Loops

variable {ε σ : Type} {body : σ → α → Except ε (α × σ)}

/-- The loop from some index on, by induction on the items that are left. -/
lemma map_foldlM_step : ∀ (l pre : List α) {s : Slots α n} {t : σ}, s.live = pre ++ l →
    (fun p => (p.1.live, p.2)) <$> (List.range' pre.length l.length).foldlM (step body) (s, t)
      = (fun r => (pre ++ r.1, r.2)) <$> committed (forMut body t l)
  | [], pre, s, t, h => by
      rw [List.length_nil, List.range'_zero, List.foldlM_nil, forMut_nil, committed_ok]
      show Except.ok (s.live, t) = Except.ok (pre ++ [], t)
      rw [h]
  | a :: l, pre, s, t, h => by
      have hcount : pre.length < s.count := by
        rw [← length_live (s := s), h]
        simp
      have hitem : s.items[pre.length]? = some a := by
        rw [getElem?_items hcount, h]
        simp
      have hstep : step body (s, t) pre.length
          = body t a >>= fun r => .ok (s.set pre.length r.1, r.2) := by
        rw [step, hitem]
        rfl
      rw [List.length_cons, List.range'_succ, List.foldlM_cons, hstep, forMut]
      cases hbody : body t a with
      | error e => rfl
      | ok r =>
          obtain ⟨a', t'⟩ := r
          have hset : (s.set pre.length a').live = (pre ++ [a']) ++ l := by
            rw [live_set, h, List.set_append_right _ _ (le_refl _), Nat.sub_self]
            simp
          have hlength : (pre ++ [a']).length = pre.length + 1 := by simp
          have hrest := map_foldlM_step l (pre ++ [a']) (t := t') hset
          rw [hlength] at hrest
          refine hrest.trans ?_
          dsimp only
          cases hloop : (forMut body t' l).2 with
          | error e => simp only [committed, hloop]; rfl
          | ok u => simp [committed, hloop]

/-- **The loop over the items in use** is the loop over the list. -/
theorem map_forLive (body : σ → α → Except ε (α × σ)) (t : σ) (s : Slots α n) :
    (fun p => (p.1.live, p.2)) <$> s.forLive body t = committed (forMut body t s.live) := by
  have hnone : s.live = [] ++ s.live := rfl
  have h : _ = _ <$> committed (forMut body t s.live) := map_foldlM_step s.live [] hnone
  rw [length_live] at h
  refine h.trans ?_
  simp

/-- It leaves the other items alone. -/
lemma rest_forLive {t u : σ} (h : s.forLive body t = .ok (r, u)) :
    r.rest = s.rest ∧ r.count = s.count := by
  have hloop : ∀ (is : List ℕ) (s : Slots α n) (t : σ), (∀ i ∈ is, i < s.count) →
      is.foldlM (step body) (s, t) = .ok (r, u) → r.rest = s.rest ∧ r.count = s.count := by
    intro is
    induction is with
    | nil =>
        intro s t _ h
        rw [List.foldlM_nil, pure_eq_ok, Prod.mk.injEq] at h
        obtain ⟨rfl, -⟩ := h
        exact ⟨rfl, rfl⟩
    | cons i is ih =>
        intro s t his h
        rw [List.foldlM_cons, bind_eq_ok] at h
        obtain ⟨⟨s', t'⟩, hstep, h⟩ := h
        have hi := his i (by simp)
        rw [step] at hstep
        split at hstep
        · simp only [bind_eq_ok, Prod.exists, pure_eq_ok, Prod.mk.injEq] at hstep
          obtain ⟨_, _, -, rfl, rfl⟩ := hstep
          obtain ⟨hrest, hcount⟩ := ih (s.set i _) _ (fun j hj => his j (by simp [hj])) h
          exact ⟨hrest.trans (rest_set hi), hcount⟩
        · obtain ⟨rfl, rfl⟩ := Prod.mk.inj (Except.ok.inj hstep)
          exact ih _ _ (fun j hj => his j (by simp [hj])) h
  exact hloop _ s t (fun i hi => by simpa using (List.mem_range'.mp hi)) h

end Loops

/-! ## Free items -/

lemma tidy_empty : Tidy blank (empty blank : Slots α n) := rfl

/-- A write below the count keeps the free slots blank. -/
lemma Tidy.set (h : Tidy blank s) (hi : i < s.count) : Tidy blank (s.set i a) :=
  (rest_set hi).trans h

/-- Taking the next slot leaves the others blank. -/
lemma Tidy.push (h : Tidy blank s) (ht : s.push a = some t) : Tidy blank t := by
  rw [Tidy, rest_push ht, h, List.tail_replicate]
  have hcount := congrArg List.length (live_push ht)
  rw [length_live, List.length_append, length_live, List.length_singleton] at hcount
  rw [hcount, Nat.sub_add_eq]

/-- A slot that is freed is blank. -/
lemma Tidy.remove (h : Tidy blank s) (hi : i < s.count) (ht : s.remove blank i = some t) :
    Tidy blank t := by
  have hle := s.count_le
  have hrest := congrArg List.length (rest_remove hi ht)
  rw [Tidy, rest_remove hi ht, h, ← List.replicate_succ]
  rw [rest, rest, List.length_cons, List.length_drop, List.length_drop, Vector.length_toList,
    Vector.length_toList] at hrest
  congr 1
  omega

/-- Writing the live list back keeps the free slots blank. -/
lemma Tidy.overwrite (h : Tidy blank s) (hl : l.length = s.count) : Tidy blank (s.overwrite l) :=
  (rest_overwrite hl).trans h

/-- A loop over the live slots keeps the free ones blank. -/
lemma Tidy.forLive {ε σ : Type} {body : σ → α → Except ε (α × σ)} {u v : σ} (h : Tidy blank s)
    (hx : s.forLive body u = .ok (t, v)) : Tidy blank t := by
  obtain ⟨hrest, hcount⟩ := rest_forLive hx
  rw [Tidy, hrest, hcount]
  exact h

/-- **A tidy array is determined by its list.** -/
theorem Tidy.ext (hs : Tidy blank s) (ht : Tidy blank t) (h : s.live = t.live) : s = t := by
  have hcount : s.count = t.count := by rw [← length_live (s := s), h, length_live]
  have hitems : s.items = t.items := by
    rw [← Vector.toList_inj, ← live_append_rest, ← live_append_rest, h, hs, ht, hcount]
  cases s
  cases t
  simp_all

end Slots
