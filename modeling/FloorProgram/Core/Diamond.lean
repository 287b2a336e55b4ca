import FloorProgram.Core.Checked
import Mathlib.Data.List.Perm.Basic

/-!
# Operations whose order does not matter

Operations that may fail and that return something.  Two of them are independent if, whenever both
succeed, each still succeeds after the other, with the same result, and both orders end in the same
state.  That is a statement about two operations in one state; this file carries it to lists.

* `Diamond P D run` — in the states with `P`, operations related by `D` are independent.
* `Diamond.runAll_ok` — if each of pairwise independent operations succeeds on its own, they all
  succeed one after the other.
* `Diamond.any_order` — and they do so in every order, with the same results and the same last
  state.
-/

namespace Checked

variable {ε σ ι ρ : Type}

/-- Run operations one after the other; all of them must succeed. -/
def runAll (run : ι → σ → Except ε (σ × ρ)) : List ι → σ → Except ε (σ × List ρ)
  | [], s => .ok (s, [])
  | a :: l, s => do
    let (t, x) ← run a s
    let (u, xs) ← runAll run l t
    return (u, x :: xs)

/-- Operations related by `D` are independent in the states with `P`. -/
structure Diamond (P : σ → Prop) (D : ι → ι → Prop) (run : ι → σ → Except ε (σ × ρ)) : Prop where
  keep : ∀ {a s t x}, P s → run a s = .ok (t, x) → P t
  swap : ∀ {a b s t u x y}, P s → D a b → run a s = .ok (t, x) → run b s = .ok (u, y) →
    ∃ v, run b t = .ok (v, y) ∧ run a u = .ok (v, x)

variable {P : σ → Prop} {D : ι → ι → Prop} {run : ι → σ → Except ε (σ × ρ)} {s t u : σ} {a : ι}
  {x : ρ} {l l' : List ι} {xs ys : List ρ} {out : ι → ρ}

lemma runAll_cons (h : run a s = .ok (t, x)) (h' : runAll run l t = .ok (u, xs)) :
    runAll run (a :: l) s = .ok (u, x :: xs) := by
  simp only [runAll, bind_eq_ok, Prod.exists, pure_eq_ok, Prod.mk.injEq]
  exact ⟨t, x, h, u, xs, h', rfl, rfl⟩

lemma runAll_cons_eq_ok (h : runAll run (a :: l) s = .ok (u, xs)) :
    ∃ t x ys, run a s = .ok (t, x) ∧ runAll run l t = .ok (u, ys) ∧ xs = x :: ys := by
  simp only [runAll, bind_eq_ok, Prod.exists, pure_eq_ok, Prod.mk.injEq] at h
  obtain ⟨t, x, hx, _, ys, hys, rfl, rfl⟩ := h
  exact ⟨t, x, ys, hx, hys, rfl⟩

/-- What holds of every state an operation leads to holds after all of them. -/
lemma runAll_invariant {Q : σ → Prop} (hstep : ∀ a ∈ l, ∀ s t x, Q s → run a s = .ok (t, x) → Q t)
    (h : runAll run l s = .ok (u, xs)) (hs : Q s) : Q u := by
  induction l generalizing s xs with
  | nil =>
      obtain ⟨rfl, -⟩ := Prod.mk.inj (Except.ok.inj h)
      exact hs
  | cons a l ih =>
      obtain ⟨t, x, ys, hx, hys, -⟩ := runAll_cons_eq_ok h
      exact ih (fun b hb => hstep b (List.mem_cons_of_mem _ hb)) hys
        (hstep a List.mem_cons_self _ _ _ hs hx)

/-- Operations independent of the first still succeed after it. -/
lemma Diamond.after (hd : Diamond P D run) (hs : P s) (ha : run a s = .ok (t, x))
    (hl : ∀ b ∈ l, D a b) (hok : ∀ b ∈ l, ∃ u, run b s = .ok (u, out b)) :
    ∀ b ∈ l, ∃ u, run b t = .ok (u, out b) := by
  intro b hb
  obtain ⟨u, hu⟩ := hok b hb
  obtain ⟨v, hv, -⟩ := hd.swap hs (hl b hb) ha hu
  exact ⟨v, hv⟩

/-- **One after the other.** -/
theorem Diamond.runAll_ok (hd : Diamond P D run) (hs : P s) (hl : l.Pairwise D)
    (hok : ∀ a ∈ l, ∃ t, run a s = .ok (t, out a)) :
    ∃ t, runAll run l s = .ok (t, l.map out) := by
  induction l generalizing s with
  | nil => exact ⟨s, rfl⟩
  | cons a l ih =>
      obtain ⟨t, ht⟩ := hok a List.mem_cons_self
      obtain ⟨hal, hl⟩ := List.pairwise_cons.mp hl
      have hrest := hd.after hs ht hal fun b hb => hok b (List.mem_cons_of_mem _ hb)
      obtain ⟨u, hu⟩ := ih (hd.keep hs ht) hl hrest
      exact ⟨u, runAll_cons ht hu⟩

/-- Two orders of the same operations end in the same state. -/
lemma Diamond.state_eq (hd : Diamond P D run) (hsymm : ∀ a b, D a b → D b a)
    (hp : l.Perm l') (hs : P s) (hl : l.Pairwise D)
    (hok : ∀ a ∈ l, ∃ t, run a s = .ok (t, out a)) (h : runAll run l s = .ok (t, xs))
    (h' : runAll run l' s = .ok (u, ys)) : t = u := by
  induction hp generalizing s t u xs ys with
  | nil => exact (Prod.mk.inj (Except.ok.inj (h.symm.trans h'))).1
  | @cons a l l' _ ih =>
      obtain ⟨v, x, xs', hx, hxs, -⟩ := runAll_cons_eq_ok h
      obtain ⟨v', x', ys', hx', hys, -⟩ := runAll_cons_eq_ok h'
      obtain ⟨rfl, rfl⟩ := Prod.mk.inj (Except.ok.inj (hx.symm.trans hx'))
      obtain ⟨hal, hl⟩ := List.pairwise_cons.mp hl
      have hrest := hd.after hs hx hal fun b hb => hok b (List.mem_cons_of_mem _ hb)
      exact ih (hd.keep hs hx) hl hrest hxs hys
  | swap a b l =>
      obtain ⟨v, x, _, hb, hxs, -⟩ := runAll_cons_eq_ok h
      obtain ⟨v', y, _, ha, hys, -⟩ := runAll_cons_eq_ok h'
      obtain ⟨v₁, x₁, _, hb', hxs', -⟩ := runAll_cons_eq_ok hxs
      obtain ⟨v₂, y₁, _, ha', hys', -⟩ := runAll_cons_eq_ok hys
      have hba : D b a := (List.pairwise_cons.mp hl).1 a List.mem_cons_self
      obtain ⟨m, hm, hm'⟩ := hd.swap hs hba hb ha
      obtain ⟨rfl, -⟩ := Prod.mk.inj (Except.ok.inj (hm.symm.trans hb'))
      obtain ⟨rfl, -⟩ := Prod.mk.inj (Except.ok.inj (hm'.symm.trans ha'))
      exact (Prod.mk.inj (Except.ok.inj (hxs'.symm.trans hys'))).1
  | @trans l₁ l₂ l₃ hp _ ih ih' =>
      have hl' : l₂.Pairwise D := (hp.pairwise_iff fun {a b} => hsymm a b).mp hl
      have hok' : ∀ a ∈ l₂, ∃ t, run a s = .ok (t, out a) := fun a ha => hok a (hp.mem_iff.mpr ha)
      obtain ⟨v, hv⟩ := hd.runAll_ok hs hl' hok'
      exact (ih hs hl hok h hv).trans (ih' hs hl' hok' hv h')

/-- **In any order.**  Pairwise independent operations that succeed one by one succeed in every
order, each with the result it has on its own, and every order ends in the same state. -/
theorem Diamond.any_order (hd : Diamond P D run) (hsymm : ∀ a b, D a b → D b a) (hs : P s)
    (hl : l.Pairwise D) (hok : ∀ a ∈ l, ∃ t, run a s = .ok (t, out a)) :
    ∃ t, ∀ l', l.Perm l' → runAll run l' s = .ok (t, l'.map out) := by
  obtain ⟨t, ht⟩ := hd.runAll_ok hs hl hok
  refine ⟨t, fun l' hp => ?_⟩
  have hl' : l'.Pairwise D := (hp.pairwise_iff fun {a b} => hsymm a b).mp hl
  obtain ⟨u, hu⟩ := hd.runAll_ok hs hl' fun a ha => hok a (hp.mem_iff.mpr ha)
  rw [hd.state_eq hsymm hp hs hl hok ht hu, hu]

end Checked
