import Mathlib.Algebra.Order.Ring.Nat
import Mathlib.Data.List.Nodup
import Mathlib.Data.List.Perm.Basic
import Mathlib.Algebra.BigOperators.Group.List.Basic
import Mathlib.Algebra.Order.BigOperators.Group.List
import Mathlib.Tactic.Common

/-!
# Keyed lists

A finite map kept as an array of records, each carrying its own key: lookup is a linear search for
the first match, update rewrites the first match, insertion appends, and removal moves the last
record into the hole (`swapRemove`).  Nothing here assumes the keys distinct except where it says
so; distinctness (`NodupKeys`) is the invariant the four operations keep.

Everything about an update is derived from one splitting lemma, `modifyFirst_split`: the list is
`pre ++ a :: post` with no match in `pre`, and afterwards `pre ++ f a :: post`.  Everything about a
removal is derived from `swapRemove_perm`: up to order, the record is erased and nothing else
happens.
-/

namespace Keyed

variable {α κ : Type} [DecidableEq κ] (key : α → κ)

/-- First record with key `k`. -/
def lookup (k : κ) (l : List α) : Option α := l.find? fun a => key a = k

/-- Rewrite the first record with key `k`; the list is unchanged if there is none. -/
def modifyFirst (k : κ) (f : α → α) : List α → List α
  | [] => []
  | a :: l => if key a = k then f a :: l else a :: modifyFirst k f l

/-- Position of the first record with key `k`. -/
def position (k : κ) (l : List α) : Option ℕ := l.findIdx? fun a => key a = k

/-- Remove the record at `i` by moving the last record into its place. -/
def swapRemove (i : ℕ) (l : List α) : List α :=
  match l.getLast? with
  | none => []
  | some moved => (l.set i moved).dropLast

/-- The keys are pairwise distinct. -/
def NodupKeys (l : List α) : Prop := (l.map key).Nodup

variable {key} {k : κ} {l l' : List α} {a b : α} {f : α → α}

/-! ## Lookup -/

/-- What is found is in the list. -/
lemma lookup_mem (h : lookup key k l = some a) : a ∈ l := List.mem_of_find?_eq_some h

/-- What is found has the key. -/
lemma lookup_key (h : lookup key k l = some a) : key a = k := by
  simpa using List.find?_some h

/-- Nothing is found exactly if nothing has the key. -/
lemma lookup_eq_none : lookup key k l = none ↔ ∀ a ∈ l, key a ≠ k := by
  simp [lookup]

/-- A successful lookup splits the list at the first match. -/
lemma lookup_split (h : lookup key k l = some a) :
    ∃ pre post, l = pre ++ a :: post ∧ ∀ b ∈ pre, key b ≠ k := by
  obtain ⟨-, pre, post, rfl, hpre⟩ := List.find?_eq_some_iff_append.mp h
  exact ⟨pre, post, rfl, by simpa using hpre⟩

omit [DecidableEq κ] in
/-- With distinct keys, a key has one element. -/
lemma eq_of_key_eq (hl : NodupKeys key l) (ha : a ∈ l) (hb : b ∈ l) (h : key a = key b) :
    a = b :=
  List.inj_on_of_nodup_map hl ha hb h

/-- With distinct keys, lookup by key is membership. -/
lemma lookup_eq_some_iff (hl : NodupKeys key l) :
    lookup key k l = some a ↔ a ∈ l ∧ key a = k := by
  refine ⟨fun h => ⟨lookup_mem h, lookup_key h⟩, fun ⟨ha, hk⟩ => ?_⟩
  cases h : lookup key k l with
  | none => exact absurd hk (lookup_eq_none.mp h a ha)
  | some b =>
      have hb := lookup_key h
      rw [eq_of_key_eq hl (lookup_mem h) ha (hb.trans hk.symm)]

/-- With distinct keys, lookup does not depend on the order of the records. -/
lemma lookup_perm (hl : NodupKeys key l) (hp : l.Perm l') : lookup key k l = lookup key k l' := by
  have hl' : NodupKeys key l' := (hp.map key).nodup_iff.mp hl
  ext a
  rw [lookup_eq_some_iff hl, lookup_eq_some_iff hl', hp.mem_iff]

/-- An element of another key changes no search. -/
lemma lookup_append_of_ne {a : α} (h : key a ≠ k) : lookup key k (l ++ [a]) = lookup key k l := by
  simp [lookup, h]

/-- A new key is found at the end. -/
lemma lookup_append_self (hk : key a = k) (h : lookup key k l = none) :
    lookup key k (l ++ [a]) = some a := by
  subst hk
  have h' : l.find? (fun b => decide (key b = key a)) = none := h
  simp [lookup, List.find?_append, h']

/-! ## Update -/

/-- **The update, spelled out.**  Everything before and after the first match stays. -/
lemma modifyFirst_split (h : lookup key k l = some a) :
    ∃ pre post, l = pre ++ a :: post ∧ modifyFirst key k f l = pre ++ f a :: post ∧
      ∀ b ∈ pre, key b ≠ k := by
  obtain ⟨pre, post, rfl, hpre⟩ := lookup_split h
  refine ⟨pre, post, rfl, ?_, hpre⟩
  have hk := lookup_key h
  clear h
  induction pre with
  | nil => simp [modifyFirst, hk]
  | cons b pre ih =>
      have hb : key b ≠ k := hpre b (by simp)
      have := ih fun c hc => hpre c (by simp [hc])
      simp [modifyFirst, hb, this]

/-- Without the key there is nothing to update. -/
lemma modifyFirst_of_none (h : lookup key k l = none) : modifyFirst key k f l = l := by
  induction l with
  | nil => rfl
  | cons b l ih =>
      rw [lookup_eq_none] at h
      have hb : key b ≠ k := h b (by simp)
      have hl : lookup key k l = none := lookup_eq_none.mpr fun c hc => h c (by simp [hc])
      simp [modifyFirst, hb, ih hl]

/-- An update only depends on what becomes of the record that is found. -/
lemma modifyFirst_congr {g : α → α} (h : lookup key k l = some a) (hfg : f a = g a) :
    modifyFirst key k f l = modifyFirst key k g l := by
  induction l with
  | nil => rfl
  | cons b l ih =>
      by_cases hb : key b = k
      · obtain rfl : b = a := by simpa [lookup, hb] using h
        simp [modifyFirst, hb, hfg]
      · have hl : lookup key k l = some a := by simpa [lookup, hb] using h
        simp [modifyFirst, hb, ih hl]

/-- Each record after an update is an old one or the rewritten one. -/
lemma mem_modifyFirst {b : α} (h : lookup key k l = some a) (hb : b ∈ modifyFirst key k f l) :
    b ∈ l ∨ b = f a := by
  obtain ⟨pre, post, rfl, hnew, -⟩ := modifyFirst_split (f := f) h
  rw [hnew] at hb
  simp only [List.mem_append, List.mem_cons] at hb ⊢
  tauto

/-- A field that the update keeps in the record that is found has the same values afterwards. -/
lemma map_modifyFirst_of_lookup {β : Type} {g : α → β} (h : lookup key k l = some a)
    (hg : g (f a) = g a) : (modifyFirst key k f l).map g = l.map g := by
  obtain ⟨pre, post, rfl, hnew, -⟩ := modifyFirst_split (f := f) h
  rw [hnew, List.map_append, List.map_append, List.map_cons, List.map_cons, hg]

/-- A field that the update keeps has the same values afterwards. -/
lemma map_modifyFirst {β : Type} {g : α → β} (hg : ∀ a, g (f a) = g a) :
    (modifyFirst key k f l).map g = l.map g := by
  induction l with
  | nil => rfl
  | cons b l ih =>
      by_cases hb : key b = k
      · simp [modifyFirst, hb, hg]
      · simp [modifyFirst, hb, ih]

/-- An update that keeps keys keeps them distinct. -/
lemma nodupKeys_modifyFirst (hf : ∀ a, key (f a) = key a) (hl : NodupKeys key l) :
    NodupKeys key (modifyFirst key k f l) := by
  rw [NodupKeys, map_modifyFirst hf]
  exact hl

/-- Lookup after an update: the record under `k` is rewritten, every other is untouched. -/
lemma lookup_modifyFirst (hf : ∀ a, key (f a) = key a) (j : κ) :
    lookup key j (modifyFirst key k f l)
      = if j = k then (lookup key j l).map f else lookup key j l := by
  induction l with
  | nil => simp [modifyFirst, lookup]
  | cons b l ih =>
      simp only [lookup] at ih ⊢
      by_cases hb : key b = k
      · by_cases hj : j = k
        · subst hj; simp [modifyFirst, hb, hf]
        · have hbj : key b ≠ j := fun h => hj (h ▸ hb)
          simp [modifyFirst, hb, hf, hj, Ne.symm hj]
      · by_cases hbj : key b = j
        · have hj : j ≠ k := fun h => hb (hbj.trans h)
          simp [modifyFirst, hbj, hj]
        · simp only [modifyFirst, if_neg hb, List.find?_cons, hbj, decide_false]
          exact ih

/-- Updates under different keys commute. -/
lemma modifyFirst_comm {j : κ} {g : α → α} (hjk : j ≠ k) (hf : ∀ a, key (f a) = key a)
    (hg : ∀ a, key (g a) = key a) :
    modifyFirst key j g (modifyFirst key k f l) = modifyFirst key k f (modifyFirst key j g l) := by
  induction l with
  | nil => rfl
  | cons b l ih =>
      by_cases hk : key b = k
      · have hj : key b ≠ j := fun h => hjk (h.symm.trans hk)
        simp [modifyFirst, hk, hf, Ne.symm hjk]
      · by_cases hj : key b = j
        · simp [modifyFirst, hj, hg, hjk]
        · simp [modifyFirst, hk, hj, ih]

/-- With distinct keys, rewriting the first match is rewriting every match. -/
lemma modifyFirst_eq_map (hl : NodupKeys key l) :
    modifyFirst key k f l = l.map fun a => if key a = k then f a else a := by
  induction l with
  | nil => rfl
  | cons b l ih =>
      rw [NodupKeys, List.map_cons, List.nodup_cons] at hl
      by_cases hb : key b = k
      · have hrest : l.map (fun a => if key a = k then f a else a) = l := by
          refine (List.map_congr_left fun c hc => ?_).trans (List.map_id l)
          rw [if_neg fun hck => hl.1 (List.mem_map.mpr ⟨c, hc, hck.trans hb.symm⟩), id]
        simp [modifyFirst, hb, hrest]
      · simp [modifyFirst, hb, ih hl.2]

/-- Rewriting every record without touching the keys commutes with lookup. -/
lemma lookup_map (hf : ∀ a, key (f a) = key a) :
    lookup key k (l.map f) = (lookup key k l).map f := by
  have hcomp : (fun a => decide (key a = k)) ∘ f = fun a => decide (key a = k) := by
    funext a
    simp only [Function.comp_apply, hf]
  rw [lookup, List.find?_map, hcomp, lookup]

/-- Rewriting one record commutes with rewriting all of them, if it does at that record. -/
lemma modifyFirst_map {g f' : α → α} (hg : ∀ a, key (g a) = key a) (h : lookup key k l = some a)
    (hcomm : f' (g a) = g (f a)) :
    modifyFirst key k f' (l.map g) = (modifyFirst key k f l).map g := by
  induction l with
  | nil => rfl
  | cons b l ih =>
      by_cases hk : key b = k
      · obtain rfl : b = a := by simpa [lookup, hk] using h
        simp [modifyFirst, hg, hk, hcomm]
      · have hl : lookup key k l = some a := by simpa [lookup, hk] using h
        simp [modifyFirst, hg, hk, ih hl]

/-- With distinct keys, writing at the position of a record is rewriting by its key. -/
lemma set_eq_modifyFirst (hl : NodupKeys key l) {i : ℕ} (hi : l[i]? = some a) :
    l.set i (f a) = modifyFirst key (key a) f l := by
  induction l generalizing i with
  | nil => simp at hi
  | cons b l ih =>
      rw [NodupKeys, List.map_cons, List.nodup_cons] at hl
      cases i with
      | zero =>
          obtain rfl : b = a := by simpa using hi
          simp [modifyFirst]
      | succ i =>
          have hi' : l[i]? = some a := by simpa using hi
          have hne : key b ≠ key a := fun h =>
            hl.1 (h ▸ List.mem_map_of_mem (List.mem_of_getElem? hi'))
          simp [modifyFirst, hne, ih hl.2 hi']

/-! ## Removal -/

/-- The position of a key is that of the element found. -/
lemma position_eq_some {i : ℕ} (h : position key k l = some i) :
    ∃ hi : i < l.length, key l[i] = k ∧ lookup key k l = some l[i] := by
  obtain ⟨hi, hk, hlt⟩ := List.findIdx?_eq_some_iff_getElem.mp h
  refine ⟨hi, by simpa using hk, ?_⟩
  rw [lookup, List.find?_eq_some_iff_getElem]
  exact ⟨hk, i, hi, rfl, fun j hj => by simpa using hlt j hj⟩

/-- **Swap-removal erases one record, up to order.** -/
theorem swapRemove_perm {i : ℕ} (hi : i < l.length) : (swapRemove i l).Perm (l.eraseIdx i) := by
  rcases List.eq_nil_or_concat l with rfl | ⟨init, last, rfl⟩
  · simp at hi
  · simp only [List.concat_eq_append] at hi ⊢
    have hlast : (init ++ [last]).getLast? = some last := by simp
    rw [swapRemove, hlast]
    show ((init ++ [last]).set i last).dropLast.Perm _
    rcases Nat.lt_or_ge i init.length with hlt | hge
    · rw [List.set_append_left _ _ hlt, List.eraseIdx_append_of_lt_length hlt]
      simp only [List.dropLast_concat]
      exact (List.set_perm_cons_eraseIdx hlt last).trans (List.perm_append_singleton _ _).symm
    · have he : i = init.length := by simp at hi; omega
      subst he
      simp [List.eraseIdx_append_of_length_le]

/-- The list before a removal is, up to order, the removed record and what is left. -/
lemma perm_cons_swapRemove {i : ℕ} (hi : i < l.length) : l.Perm (l[i] :: swapRemove i l) :=
  (List.getElem_cons_eraseIdx_perm hi).symm.trans ((swapRemove_perm hi).symm.cons _)

omit [DecidableEq κ] in
/-- Removing an element keeps the keys distinct. -/
lemma nodupKeys_swapRemove {i : ℕ} (hi : i < l.length) (hl : NodupKeys key l) :
    NodupKeys key (swapRemove i l) := by
  have := ((perm_cons_swapRemove hi).map key).nodup_iff.mp hl
  exact (List.nodup_cons.mp this).2

lemma mem_of_mem_swapRemove {i : ℕ} (hi : i < l.length) (h : a ∈ swapRemove i l) : a ∈ l :=
  (perm_cons_swapRemove hi).mem_iff.mpr (List.mem_cons_of_mem _ h)

/-- Removing one key leaves the lookup of every other key alone. -/
lemma lookup_swapRemove_of_ne {i : ℕ} (hi : i < l.length) (hl : NodupKeys key l)
    (hk : key l[i] ≠ k) : lookup key k (swapRemove i l) = lookup key k l := by
  rw [lookup_perm hl (perm_cons_swapRemove hi)]
  simp [lookup, hk]

/-- A removed key is no longer found. -/
lemma lookup_swapRemove_self {i : ℕ} (hi : i < l.length) (hl : NodupKeys key l) :
    lookup key (key l[i]) (swapRemove i l) = none := by
  have := ((perm_cons_swapRemove hi).map key).nodup_iff.mp hl
  rw [List.map_cons, List.nodup_cons] at this
  refine lookup_eq_none.mpr fun b hb heq => this.1 ?_
  exact List.mem_map.mpr ⟨b, hb, heq⟩

/-- Dropping one key leaves the lookup of every other key alone. -/
lemma lookup_filter_of_ne {j : κ} (hjk : j ≠ k) :
    lookup key k (l.filter fun a => key a ≠ j) = lookup key k l := by
  induction l with
  | nil => rfl
  | cons a l ih =>
      by_cases ha : key a = j
      · have hne : key a ≠ k := fun h => hjk (ha.symm.trans h)
        rw [List.filter_cons_of_neg (by simpa using ha), ih]
        simp [lookup, hne]
      · rw [List.filter_cons_of_pos (by simpa using ha)]
        simp only [lookup, List.find?_cons] at ih ⊢
        rw [ih]

/-- A filtered-out key is no longer found. -/
lemma lookup_filter_self : lookup key k (l.filter fun a => key a ≠ k) = none :=
  lookup_eq_none.mpr fun _ hb => by simpa using (List.mem_filter.mp hb).2

/-! ## Values -/

/-- The value stored under `k`, zero if there is no record. -/
def valueOf (key : α → κ) (v : α → ℕ) (k : κ) (l : List α) : ℕ := ((lookup key k l).map v).getD 0

section Values

variable {v : α → ℕ}

/-- The value of a key is that of its element. -/
lemma valueOf_of_mem (hl : NodupKeys key l) (ha : a ∈ l) (hk : key a = k) :
    valueOf key v k l = v a := by
  rw [valueOf, (lookup_eq_some_iff hl).mpr ⟨ha, hk⟩]
  rfl

/-- A key without an element has the value zero. -/
lemma valueOf_of_forall_ne (h : ∀ a ∈ l, key a ≠ k) : valueOf key v k l = 0 := by
  rw [valueOf, lookup_eq_none.mpr h]
  rfl

/-- The value of a key does not depend on the order. -/
lemma valueOf_perm (hl : NodupKeys key l) (hp : l.Perm l') :
    valueOf key v k l = valueOf key v k l' := by
  rw [valueOf, valueOf, lookup_perm hl hp]

lemma valueOf_map (hf : ∀ a, key (f a) = key a) :
    valueOf key v k (l.map f) = valueOf key (fun a => v (f a)) k l := by
  rw [valueOf, lookup_map hf, Option.map_map]
  rfl

lemma valueOf_add (u : α → ℕ) :
    valueOf key (fun a => u a + v a) k l = valueOf key u k l + valueOf key v k l := by
  cases h : lookup key k l <;> simp [valueOf, h]

end Values

/-! ## Sums -/

/-- A field two related lists agree on record by record has the same values in both. -/
lemma map_eq_of_forall₂ {α β γ : Type} {R : α → β → Prop} {l : List α} {l' : List β} {f : α → γ}
    {g : β → γ} (h : List.Forall₂ R l l') (hR : ∀ a b, R a b → g b = f a) :
    l'.map g = l.map f := by
  induction h with
  | nil => rfl
  | cons hab _ ih => simp [hR _ _ hab, ih]

lemma forall₂_imp_of_mem {α β : Type} {R S : α → β → Prop} {l : List α} {l' : List β}
    (h : List.Forall₂ R l l') (hRS : ∀ a ∈ l, ∀ b, R a b → S a b) : List.Forall₂ S l l' := by
  induction h with
  | nil => exact .nil
  | cons hab _ ih =>
      exact .cons (hRS _ (by simp) _ hab) (ih fun a ha b => hRS a (by simp [ha]) b)

lemma exists_of_forall₂_right {α β : Type} {R : α → β → Prop} {l : List α} {l' : List β} {b : β}
    (h : List.Forall₂ R l l') (hb : b ∈ l') : ∃ a ∈ l, R a b := by
  induction h with
  | nil => simp at hb
  | cons hab _ ih =>
      rcases List.mem_cons.mp hb with rfl | hb
      · exact ⟨_, by simp, hab⟩
      · obtain ⟨a, ha, hR⟩ := ih hb
        exact ⟨a, by simp [ha], hR⟩

/-- Two lists related record by record, with related records under one key, are related under
every key. -/
lemma lookup_of_forall₂ {R : α → α → Prop} (h : List.Forall₂ R l l')
    (hkey : ∀ a b, R a b → key b = key a) :
    (lookup key k l = none ∧ lookup key k l' = none) ∨
      ∃ a b, lookup key k l = some a ∧ lookup key k l' = some b ∧ R a b := by
  induction h with
  | nil => exact .inl ⟨rfl, rfl⟩
  | @cons a b l l' hab _ ih =>
      by_cases ha : key a = k
      · exact .inr ⟨a, b, by simp [lookup, ha], by simp [lookup, hkey a b hab, ha], hab⟩
      · have hb : key b ≠ k := by rw [hkey a b hab]; exact ha
        simpa [lookup, ha, hb] using ih

/-- A field that two related lists agree on has the same value under every key. -/
lemma valueOf_of_forall₂ {R : α → α → Prop} {v : α → ℕ} (h : List.Forall₂ R l l')
    (hkey : ∀ a b, R a b → key b = key a) (hv : ∀ a b, R a b → v b = v a) :
    valueOf key v k l' = valueOf key v k l := by
  rcases lookup_of_forall₂ (k := k) h hkey with ⟨hl, hl'⟩ | ⟨a, b, ha, hb, hab⟩
  · simp [valueOf, hl, hl']
  · simp [valueOf, ha, hb, hv a b hab]

/-- The sum of a field after an update of one record. -/
lemma sum_modifyFirst (v : α → ℕ) (h : lookup key k l = some a) :
    ((modifyFirst key k f l).map v).sum + v a = (l.map v).sum + v (f a) := by
  obtain ⟨pre, post, rfl, hnew, -⟩ := modifyFirst_split (f := f) h
  rw [hnew]
  simp only [List.map_append, List.map_cons, List.sum_append, List.sum_cons]
  omega

/-- The sum of a field after every record under one key is dropped. -/
lemma sum_filter_ne (v : α → ℕ) (hl : NodupKeys key l) (h : lookup key k l = some a) :
    ((l.filter fun b => key b ≠ k).map v).sum + v a = (l.map v).sum := by
  have hk := lookup_key h
  obtain ⟨pre, post, rfl, hpre⟩ := lookup_split h
  have hpost : ∀ b ∈ post, key b ≠ k := by
    intro b hb heq
    rw [NodupKeys, List.map_append, List.map_cons] at hl
    have := (List.nodup_cons.mp (List.Nodup.of_append_right hl)).1
    exact this (List.mem_map.mpr ⟨b, hb, heq.trans hk.symm⟩)
  have h₁ : pre.filter (fun b => decide (key b ≠ k)) = pre :=
    List.filter_eq_self.mpr fun b hb => decide_eq_true (hpre b hb)
  have h₂ : post.filter (fun b => decide (key b ≠ k)) = post :=
    List.filter_eq_self.mpr fun b hb => decide_eq_true (hpost b hb)
  rw [List.filter_append, List.filter_cons_of_neg (by simpa using hk), h₁, h₂]
  simp only [List.map_append, List.map_cons, List.sum_append, List.sum_cons]
  omega

/-- The sum of a field before a removal. -/
lemma sum_swapRemove (v : α → ℕ) {i : ℕ} (hi : i < l.length) :
    (l.map v).sum = v l[i] + ((swapRemove i l).map v).sum := by
  rw [((perm_cons_swapRemove hi).map v).sum_eq, List.map_cons, List.sum_cons]

omit [DecidableEq κ] in
/-- If the records of `l` have distinct keys and each is matched in `l'` by one with the same key
and value, the values of `l` sum to at most those of `l'`. -/
lemma sum_le_of_matched {β : Type} {key' : β → κ} {l' : List β} {v : α → ℕ} {v' : β → ℕ}
    (hl : NodupKeys key l) (h : ∀ a ∈ l, ∃ b ∈ l', key' b = key a ∧ v' b = v a) :
    (l.map v).sum ≤ (l'.map v').sum := by
  induction l generalizing l' with
  | nil => simp
  | cons a l ih =>
      obtain ⟨b, hb, hkey, hval⟩ := h a (by simp)
      obtain ⟨pre, post, rfl⟩ := List.append_of_mem hb
      rw [NodupKeys, List.map_cons, List.nodup_cons] at hl
      have hrest : ∀ c ∈ l, ∃ d ∈ pre ++ post, key' d = key c ∧ v' d = v c := by
        intro c hc
        obtain ⟨d, hd, hk, hv⟩ := h c (by simp [hc])
        have hdb : d ≠ b := by
          rintro rfl
          exact hl.1 (List.mem_map.mpr ⟨c, hc, by rw [← hk, hkey]⟩)
        exact ⟨d, by simpa [hdb] using hd, hk, hv⟩
      have := ih hl.2 hrest
      simp only [List.map_append, List.sum_append, List.map_cons, List.sum_cons] at this ⊢
      omega

end Keyed
