import FloorProgram.Core.Diamond
import Mathlib.Data.List.Count

/-!
# Calls of many parties

Every call is made by one party, and what it does depends on that party's view of the state and
changes only that view.  Then how the calls of different parties are interleaved does not matter to
any of them.

* `Local` — a call acts on the view of its owner by `act`, and leaves every other view alone.
* `Local.view_eq` — after a run, the view of a party is what its own calls make of it.
* `Local.interleaving` — two runs with the same calls of each party, in each party's order, give
  every party the same view and the same results.
* `perm_of_filter_eq` — such runs consist of the same calls with the same results.
-/

namespace Checked

variable {ε σ ι ρ κ β : Type} [DecidableEq κ]

/-- Calls `run` of parties `owner` act on the views of their owners. -/
structure Local (P : σ → Prop) (run : ι → σ → Except ε (σ × ρ)) (owner : ι → κ) (view : κ → σ → β)
    (act : ι → β → Option (β × ρ)) : Prop where
  keep : ∀ {a s t x}, P s → run a s = .ok (t, x) → P t
  mine : ∀ {a s t x}, P s → run a s = .ok (t, x) →
    act a (view (owner a) s) = some (view (owner a) t, x)
  others : ∀ {a s t x} k, P s → run a s = .ok (t, x) → k ≠ owner a → view k t = view k s

/-- The calls of one party, on its own view. -/
def actAll (act : ι → β → Option (β × ρ)) : List ι → β → Option (β × List ρ)
  | [], v => some (v, [])
  | a :: l, v => do
    let (v', x) ← act a v
    let (v'', xs) ← actAll act l v'
    return (v'', x :: xs)

/-- The calls of party `k`, with what is paired with them. -/
def callsOf (owner : ι → κ) (k : κ) (l : List (ι × ρ)) : List (ι × ρ) :=
  l.filter fun p => owner p.1 = k

variable {P : σ → Prop} {run : ι → σ → Except ε (σ × ρ)} {owner : ι → κ} {view : κ → σ → β}
  {act : ι → β → Option (β × ρ)} {s t u : σ} {l l' : List ι} {xs ys : List ρ}

/-- **A party sees its own calls.** -/
theorem Local.view_eq (hl : Local P run owner view act) (hs : P s)
    (h : runAll run l s = .ok (t, xs)) (k : κ) :
    actAll act (l.filter fun a => owner a = k) (view k s)
      = some (view k t, (callsOf owner k (l.zip xs)).map Prod.snd) := by
  induction l generalizing s xs with
  | nil =>
      obtain ⟨rfl, rfl⟩ := Prod.mk.inj (Except.ok.inj h)
      rfl
  | cons a l ih =>
      obtain ⟨u, x, ys, hx, hys, rfl⟩ := runAll_cons_eq_ok h
      have hrest := ih (hl.keep hs hx) hys
      by_cases hk : owner a = k
      · subst hk
        have hmine := hl.mine hs hx
        rw [List.filter_cons_of_pos (by simp), actAll, hmine]
        simp only [Option.bind_eq_bind, Option.bind_some, hrest, callsOf, List.zip_cons_cons]
        rw [List.filter_cons_of_pos (by simp)]
        rfl
      · rw [List.filter_cons_of_neg (by simpa using hk), ← hl.others k hs hx (Ne.symm hk), hrest,
          callsOf, callsOf, List.zip_cons_cons, List.filter_cons_of_neg (by simpa using hk)]

/-- **Interleavings.**  If every party makes the same calls in the same order in two runs, then
every party ends with the same view, and gets the same results. -/
theorem Local.interleaving (hl : Local P run owner view act) (hs : P s)
    (hsame : ∀ k, l.filter (fun a => owner a = k) = l'.filter fun a => owner a = k)
    (h : runAll run l s = .ok (t, xs)) (h' : runAll run l' s = .ok (u, ys)) (k : κ) :
    view k t = view k u ∧
      (callsOf owner k (l.zip xs)).map Prod.snd = (callsOf owner k (l'.zip ys)).map Prod.snd := by
  have hk := hl.view_eq hs h k
  have hk' := hl.view_eq hs h' k
  rw [hsame k] at hk
  exact Prod.mk.inj (Option.some.inj (hk.symm.trans hk'))

lemma runAll_length (h : runAll run l s = .ok (t, xs)) : xs.length = l.length := by
  induction l generalizing s xs with
  | nil =>
      obtain ⟨-, rfl⟩ := Prod.mk.inj (Except.ok.inj h)
      rfl
  | cons a l ih =>
      obtain ⟨_, _, ys, -, hys, rfl⟩ := runAll_cons_eq_ok h
      rw [List.length_cons, ih hys, List.length_cons]

/-- The calls of a party, without the results. -/
lemma callsOf_map_fst (hlen : xs.length = l.length) (k : κ) :
    (callsOf owner k (l.zip xs)).map Prod.fst = l.filter fun a => owner a = k := by
  have hzip : (l.zip xs).map Prod.fst = l := List.map_fst_zip hlen.ge
  rw [callsOf]
  conv_rhs => rw [← hzip]
  rw [List.filter_map]
  rfl

/-- Lists that agree for every party are the same up to order. -/
lemma perm_of_filter_eq {α : Type} {f : α → κ} {m m' : List α}
    (h : ∀ k, m.filter (fun a => f a = k) = m'.filter fun a => f a = k) : m.Perm m' := by
  classical
  refine List.perm_iff_count.mpr fun a => ?_
  have hcount : ∀ n : List α, n.count a = (n.filter fun b => f b = f a).count a := fun n =>
    (List.count_filter (by simp)).symm
  rw [hcount m, hcount m', h]

/-- In both runs a party makes the same calls with the same results. -/
theorem Local.callsOf_eq (hl : Local P run owner view act) (hs : P s)
    (hsame : ∀ k, l.filter (fun a => owner a = k) = l'.filter fun a => owner a = k)
    (h : runAll run l s = .ok (t, xs)) (h' : runAll run l' s = .ok (u, ys)) (k : κ) :
    callsOf owner k (l.zip xs) = callsOf owner k (l'.zip ys) := by
  obtain ⟨-, hresults⟩ := hl.interleaving hs hsame h h' k
  have hcalls : (callsOf owner k (l.zip xs)).map Prod.fst
      = (callsOf owner k (l'.zip ys)).map Prod.fst := by
    rw [callsOf_map_fst (runAll_length h), callsOf_map_fst (runAll_length h'), hsame k]
  rw [← List.zip_unzip (callsOf owner k (l.zip xs)), ← List.zip_unzip (callsOf owner k (l'.zip ys)),
    List.unzip_eq_map, List.unzip_eq_map]
  exact congrArg₂ List.zip hcalls hresults

/-- Both runs consist of the same calls with the same results. -/
theorem Local.perm (hl : Local P run owner view act) (hs : P s)
    (hsame : ∀ k, l.filter (fun a => owner a = k) = l'.filter fun a => owner a = k)
    (h : runAll run l s = .ok (t, xs)) (h' : runAll run l' s = .ok (u, ys)) :
    (l.zip xs).Perm (l'.zip ys) := by
  refine perm_of_filter_eq (f := fun p => owner p.1) fun k => ?_
  exact hl.callsOf_eq hs hsame h h' k

end Checked
