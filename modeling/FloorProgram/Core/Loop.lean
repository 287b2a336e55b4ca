import FloorProgram.Core.Checked
import Mathlib.Algebra.BigOperators.Group.List.Basic

/-!
# Loops over a slice, with early return

Three loop shapes cover a program that walks an array with accumulators and leaves by an early
return.

* `forMut` — iterate over a slice **in place**: the body may replace the current element and
  update the accumulator, or fail.  On a failure the elements already visited keep their new
  value, which matters as soon as a caller catches the error.
* `forWrite` — the same for a body that may fail after it wrote its element: the element keeps
  what was written.
* `List.foldlM` with a checked addition — a read-only pass that sums into a machine word;
  `foldlM_checkedAdd` says it computes the sum over the elements the filter lets through, and
  fails exactly when the sum does not fit.

`committed` is the view of a caller that lets the error propagate.
-/

namespace Loop

open Checked

variable {ε α σ : Type}

/-- Iterate over a slice in place.  The body sees the accumulator and the current element and
returns the new element and accumulator, or stops the loop with an error. -/
def forMut (body : σ → α → Except ε (α × σ)) : σ → List α → List α × Except ε σ
  | s, [] => ([], .ok s)
  | s, a :: l =>
    match body s a with
    | .error e => (a :: l, .error e)
    | .ok (a', s') =>
      let r := forMut body s' l
      (a' :: r.1, r.2)

/-- What a caller that propagates the error sees: the new slice and the final accumulator. -/
def committed (r : List α × Except ε σ) : Except ε (List α × σ) :=
  match r.2 with
  | .ok s => .ok (r.1, s)
  | .error e => .error e

/-- A loop is committed exactly if it ran to its end. -/
@[simp] lemma committed_eq_ok {r : List α × Except ε σ} {l : List α} {s : σ} :
    committed r = .ok (l, s) ↔ r.1 = l ∧ r.2 = .ok s := by
  rcases r with ⟨l', x | x⟩ <;> simp [committed]

lemma committed_ok (l : List α) (s : σ) : committed (l, (.ok s : Except ε σ)) = .ok (l, s) := rfl

@[simp] lemma forMut_nil (body : σ → α → Except ε (α × σ)) (s : σ) :
    forMut body s [] = ([], .ok s) := rfl

/-- A step that succeeds is followed by the loop over the rest. -/
lemma forMut_cons_ok {body : σ → α → Except ε (α × σ)} {s s' : σ} {a a' : α} (l : List α)
    (h : body s a = .ok (a', s')) :
    forMut body s (a :: l) = (a' :: (forMut body s' l).1, (forMut body s' l).2) := by
  simp [forMut, h]

/-- A loop that ran to its end ran its body successfully on the head, then on the tail. -/
lemma forMut_cons_eq_ok {body : σ → α → Except ε (α × σ)} {s t : σ} {a : α} {l l' : List α}
    (h : forMut body s (a :: l) = (l', .ok t)) :
    ∃ a' s' l'', body s a = .ok (a', s') ∧ forMut body s' l = (l'', .ok t) ∧ l' = a' :: l'' := by
  rw [forMut] at h
  split at h
  · simp at h
  · rename_i a' s' hb
    simp only [Prod.mk.injEq] at h
    exact ⟨a', s', _, hb, Prod.ext rfl h.2, h.1.symm⟩

/-- What every iteration does to its element, the loop does to the slice. -/
lemma forall₂_of_forMut {R : α → α → Prop} {body : σ → α → Except ε (α × σ)}
    (hbody : ∀ s a a' s', body s a = .ok (a', s') → R a a') :
    ∀ {l l' : List α} {s t : σ}, forMut body s l = (l', .ok t) → List.Forall₂ R l l'
  | [], _, _, _, h => by
      simp only [forMut_nil, Prod.mk.injEq] at h
      rw [← h.1]
      exact .nil
  | a :: l, _, _, _, h => by
      obtain ⟨a', s', l'', ha, hl, rfl⟩ := forMut_cons_eq_ok h
      exact .cons (hbody _ _ _ _ ha) (forall₂_of_forMut hbody hl)

/-- What every iteration keeps of the accumulator, the loop keeps. -/
lemma forMut_keeps {Q : σ → Prop} {body : σ → α → Except ε (α × σ)}
    (hbody : ∀ s a a' s', Q s → body s a = .ok (a', s') → Q s') :
    ∀ {l l' : List α} {s t : σ}, Q s → forMut body s l = (l', .ok t) → Q t
  | [], _, _, _, hs, h => by
      simp only [forMut_nil, Prod.mk.injEq, Except.ok.injEq] at h
      exact h.2 ▸ hs
  | a :: l, _, _, _, hs, h => by
      obtain ⟨a', s', l'', ha, hl, rfl⟩ := forMut_cons_eq_ok h
      exact forMut_keeps hbody (hbody _ _ _ _ hs ha) hl

/-- **The loop rule.**  If on every element, in every accumulator the relation allows,
the body succeeds and keeps the relation, the loop succeeds. -/
theorem forMut_total {body : σ → α → Except ε (α × σ)}
    (P : List α → List α → σ → Prop) :
    ∀ (l pre pre' : List α) (s : σ),
      (∀ p a q p' t, l = p ++ a :: q → P (pre ++ p) p' t →
        ∃ a' t', body t a = .ok (a', t') ∧ P (pre ++ p ++ [a]) (p' ++ [a']) t') →
      P pre pre' s → ∃ l' t, forMut body s l = (l', .ok t) ∧ P (pre ++ l) (pre' ++ l') t
  | [], pre, pre', s, _, hP => ⟨[], s, rfl, by simpa using hP⟩
  | a :: l, pre, pre', s, hstep, hP => by
      obtain ⟨a', s', hb, hP'⟩ := hstep [] a l pre' s rfl (by simpa using hP)
      rw [List.append_nil] at hP'
      obtain ⟨l', t, hl, hP''⟩ := forMut_total P l (pre ++ [a]) (pre' ++ [a']) s'
        (fun p b q p' t hsplit hPp => by
          have := hstep (a :: p) b q p' t (by rw [hsplit]; rfl) (by simpa using hPp)
          simpa using this) hP'
      refine ⟨a' :: l', t, ?_, by simpa using hP''⟩
      rw [forMut_cons_ok l hb, hl]

/-- The body only has to be considered in the accumulators the loop gets to. -/
lemma failsOnly_forMut_reached {P : ε → Prop} {body : σ → α → Except ε (α × σ)} :
    ∀ {l : List α} {s : σ},
      (∀ pre a post pre' t, l = pre ++ a :: post → forMut body s pre = (pre', .ok t) →
        FailsOnly P (body t a)) → FailsOnly P (forMut body s l).2
  | [], s, _ => failsOnly_ok s
  | a :: l, s, h => by
      rw [forMut]
      split
      · rename_i e hb
        exact failsOnly_error (h [] a l [] s rfl rfl e hb)
      · rename_i a' s' hb
        refine failsOnly_forMut_reached fun pre b post pre' t hsplit hpre => ?_
        refine h (a :: pre) b post (a' :: pre') t (congrArg (a :: ·) hsplit) ?_
        rw [forMut_cons_ok pre hb, hpre]

/-- A loop fails only as its body does. -/
lemma failsOnly_forMut {P : ε → Prop} {body : σ → α → Except ε (α × σ)}
    (hbody : ∀ s a, FailsOnly P (body s a)) (l : List α) (s : σ) :
    FailsOnly P (forMut body s l).2 :=
  failsOnly_forMut_reached fun _ a _ _ t _ _ => hbody t a

/-- Iterate over a slice in place, with a body that may write the element and fail afterwards. -/
def forWrite (body : σ → α → α × Except ε σ) : σ → List α → List α × Except ε σ
  | s, [] => ([], .ok s)
  | s, a :: l =>
    match body s a with
    | (a', .error e) => (a' :: l, .error e)
    | (a', .ok s') =>
      let r := forWrite body s' l
      (a' :: r.1, r.2)

@[simp] lemma forWrite_nil (body : σ → α → α × Except ε σ) (s : σ) :
    forWrite body s [] = ([], .ok s) := rfl

/-- A step that succeeds is followed by the loop over the rest. -/
lemma forWrite_cons_ok {body : σ → α → α × Except ε σ} {s s' : σ} {a a' : α} (l : List α)
    (h : body s a = (a', .ok s')) :
    forWrite body s (a :: l) = (a' :: (forWrite body s' l).1, (forWrite body s' l).2) := by
  simp [forWrite, h]

/-- A loop that ran to its end ran its body successfully on the head, then on the tail. -/
lemma forWrite_cons_eq_ok {body : σ → α → α × Except ε σ} {s t : σ} {a : α} {l l' : List α}
    (h : forWrite body s (a :: l) = (l', .ok t)) :
    ∃ a' s' l'', body s a = (a', .ok s') ∧ forWrite body s' l = (l'', .ok t) ∧ l' = a' :: l'' := by
  rw [forWrite] at h
  split at h
  · simp at h
  · rename_i a' s' hb
    simp only [Prod.mk.injEq] at h
    exact ⟨a', s', _, hb, Prod.ext rfl h.2, h.1.symm⟩

/-- A loop fails only as its body does. -/
lemma failsOnly_forWrite {P : ε → Prop} {body : σ → α → α × Except ε σ}
    (hbody : ∀ s a, FailsOnly P (body s a).2) :
    ∀ (l : List α) (s : σ), FailsOnly P (forWrite body s l).2
  | [], s => failsOnly_ok s
  | a :: l, s => by
      rw [forWrite]
      split
      · rename_i a' e hb
        exact failsOnly_error (hbody s a e (by rw [hb]))
      · exact failsOnly_forWrite hbody l _

/-- Committing adds no failure. -/
lemma failsOnly_committed {P : ε → Prop} {r : List α × Except ε σ} (h : FailsOnly P r.2) :
    FailsOnly P (committed r) := by
  rcases r with ⟨l, e | s⟩
  · exact failsOnly_error (h e rfl)
  · exact failsOnly_ok _

/-- A fold fails only as its step does. -/
lemma failsOnly_foldlM {P : ε → Prop} {body : σ → α → Except ε σ}
    (hbody : ∀ s a, FailsOnly P (body s a)) : ∀ (l : List α) (s : σ), FailsOnly P (l.foldlM body s)
  | [], s => failsOnly_pure s
  | a :: l, s => by
      rw [List.foldlM_cons]
      exact failsOnly_bind (hbody s a) fun s' _ => failsOnly_foldlM hbody l s'

/-- A map fails only as its function does on the elements. -/
lemma failsOnly_mapM {β : Type} {P : ε → Prop} {f : α → Except ε β} :
    ∀ {l : List α}, (∀ a ∈ l, FailsOnly P (f a)) → FailsOnly P (l.mapM f)
  | [], _ => failsOnly_pure _
  | a :: l, hf => by
      rw [List.mapM_cons]
      refine failsOnly_bind (hf a (by simp)) fun b _ => ?_
      have hl : FailsOnly P (l.mapM f) := failsOnly_mapM fun x hx => hf x (by simp [hx])
      exact failsOnly_bind hl fun _ _ => failsOnly_pure _

/-- A `mapM` whose body computes `g` when it succeeds computes the list of the `g`s. -/
lemma eq_map_of_mapM {β : Type} {f : α → Except ε β} {g : α → β}
    (hf : ∀ a b, f a = .ok b → b = g a) {l : List α} :
    ∀ {l' : List β}, l.mapM f = .ok l' → l' = l.map g := by
  induction l with
  | nil =>
      intro l' h
      rw [List.mapM_nil, pure_eq_ok] at h
      rw [← h, List.map_nil]
  | cons a l ih =>
      intro l' h
      simp only [List.mapM_cons, bind_eq_ok, pure_eq_ok] at h
      obtain ⟨b, hb, bs, hbs, rfl⟩ := h
      rw [hf a b hb, ih hbs, List.map_cons]

/-- Everything in the result of a `mapM` was computed from something in the list. -/
lemma exists_of_mem_mapM {β : Type} {f : α → Except ε β} {l : List α} {b : β} :
    ∀ {l' : List β}, l.mapM f = .ok l' → b ∈ l' → ∃ a ∈ l, f a = .ok b := by
  induction l with
  | nil =>
      intro l' h hb
      rw [List.mapM_nil, pure_eq_ok] at h
      rw [← h] at hb
      cases hb
  | cons a l ih =>
      intro l' h hb
      simp only [List.mapM_cons, bind_eq_ok, pure_eq_ok] at h
      obtain ⟨b', hb', bs, hbs, rfl⟩ := h
      rcases List.mem_cons.mp hb with rfl | hb
      · exact ⟨a, List.mem_cons_self, hb'⟩
      · obtain ⟨c, hc, hfc⟩ := ih hbs hb
        exact ⟨c, List.mem_cons_of_mem _ hc, hfc⟩

/-- A read-only pass that adds `f` over the elements satisfying `p` into a word of width `w`
returns the sum, and only if it fits. -/
lemma foldlM_checkedAdd {w : ℕ} {e : ε} {p : α → Bool} {f : α → ℕ} :
    ∀ {l : List α} {s t : ℕ}, s < 2 ^ w →
      (l.foldlM (fun acc a => if p a then okOr e (checkedAdd w acc (f a)) else .ok acc) s
          = .ok t ↔
        s + ((l.filter p).map f).sum < 2 ^ w ∧ s + ((l.filter p).map f).sum = t)
  | [], s, t, hs => by simpa using fun _ => hs
  | a :: l, s, t, hs => by
      rw [List.foldlM_cons]
      by_cases hp : p a = true
      · simp only [hp, if_true, bind_eq_ok, okOr_eq_ok, checkedAdd_eq_some, List.filter_cons,
          List.map_cons, List.sum_cons]
        constructor
        · rintro ⟨b, ⟨hb, rfl⟩, h⟩
          have := (foldlM_checkedAdd hb).mp h
          omega
        · intro h
          have hb : s + f a < 2 ^ w := by omega
          exact ⟨_, ⟨hb, rfl⟩, (foldlM_checkedAdd hb).mpr (by omega)⟩
      · simp only [hp, if_false, ok_bind, List.filter_cons, Bool.false_eq_true]
        exact foldlM_checkedAdd hs

end Loop
