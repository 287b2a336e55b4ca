import FloorProgram.Core.Simulation
import Mathlib.Data.Finsupp.Order
import Mathlib.Data.Finsupp.Weight

/-!
# A market that buys in rounds

What the program is for, without its accounts: parties of any kind `K` put money into a common
pool, and an operator names a price.  Whoever has the good may sell it to the pool.  The pool buys
in rounds of a fixed size; the money for a round is locked before the first sale, and when the
round ends the locks are charged and the good that was bought is owed to those who were charged.

* `State`, `Event`, `Step` — the state of the market, what a party may do, and when.
* `Event.moneyIn`, … — the money and the goods that change hands.
* `Step.money_eq`, `Step.goods_eq` — the money and the goods at hand change by nothing else.
* `Step.operator_eq` — only a nomination and its acceptance touch the operator.

Nothing is said about how a lock is shared out or who gets which part of the good: the market
demands that a round is covered by its locks, that nobody is charged more than the lock, and that
exactly those with a lock are owed something.
-/

namespace Market

open Transition

/-- The terms of a round: the price of `scale` units, and the size of a round in units. -/
structure Terms where
  price : ℕ
  size : ℕ

/-- What `n` units cost. -/
def Terms.cost (scale : ℕ) (t : Terms) (n : ℕ) : ℕ := n * t.price / scale

/-- A round under way. -/
structure Round where
  terms : Terms
  bought : ℕ
  paid : ℕ

/-- The state of the market. -/
structure State (K : Type) where
  scale : ℕ
  operator : K
  nominee : Option K
  frozen : Bool
  paused : Bool
  terms : Terms
  round : Option Round
  rounds : ℕ
  carry : ℕ
  free : K →₀ ℕ
  locked : K →₀ ℕ
  owed : ℕ × K →₀ ℕ
  money : ℕ
  goods : ℕ

/-- What a party may do. -/
inductive Action (K : Type)
  | nominate (k : Option K)
  | accept
  | freeze (b : Bool)
  | pause (b : Bool)
  | setTerms (t : Terms)
  | deposit (n : ℕ)
  | withdraw (n : ℕ)
  | refund (k : K) (n : ℕ)
  | start (lock : K →₀ ℕ)
  | cancel
  | sell (n cost : ℕ)
  | settle (charge alloc : K →₀ ℕ) (carry : ℕ)
  | claim (i n : ℕ)

/-- Something a party did. -/
structure Event (K : Type) where
  signer : K
  action : Action K

variable {K : Type}

/-- The steps of the market. -/
inductive Step (m : State K) : Event K → State K → Prop
  | nominate {s : K} {k : Option K} (hs : s = m.operator) :
      Step m ⟨s, .nominate k⟩ { m with nominee := k }
  | accept {s : K} (hs : m.nominee = some s) :
      Step m ⟨s, .accept⟩ { m with operator := s, nominee := none }
  | freeze {s : K} {b : Bool} (hs : s = m.operator) : Step m ⟨s, .freeze b⟩ { m with frozen := b }
  | pause {s : K} {b : Bool} (hs : s = m.operator) : Step m ⟨s, .pause b⟩ { m with paused := b }
  | setTerms {s : K} {t : Terms} (hs : s = m.operator) (hcost : 0 < t.cost m.scale t.size) :
      Step m ⟨s, .setTerms t⟩ { m with terms := t }
  | deposit {s : K} {n : ℕ} (hfrozen : m.frozen = false) (hn : 0 < n) :
      Step m ⟨s, .deposit n⟩
        { m with free := m.free + Finsupp.single s n, money := m.money + n }
  | withdraw {s : K} {n : ℕ} (hfrozen : m.frozen = false) (hn : 0 < n) (hfree : n ≤ m.free s)
      (hmoney : n ≤ m.money) :
      Step m ⟨s, .withdraw n⟩
        { m with free := m.free - Finsupp.single s n, money := m.money - n }
  | refund {s k : K} {n : ℕ} (hs : s = m.operator) (hlock : m.locked k = 0) (hfree : n = m.free k)
      (hmoney : n ≤ m.money) :
      Step m ⟨s, .refund k n⟩
        { m with free := m.free - Finsupp.single k n, money := m.money - n }
  | start {s : K} {lock : K →₀ ℕ} (hfrozen : m.frozen = false) (hpaused : m.paused = false)
      (hidle : m.round = none) (hpos : lock ≠ 0) (hfree : lock ≤ m.free)
      (hcost : lock.degree ≤ m.terms.cost m.scale m.terms.size) :
      Step m ⟨s, .start lock⟩
        { m with round := some ⟨m.terms, 0, 0⟩, free := m.free - lock, locked := lock }
  | cancel {s : K} {r : Round} (hs : s = m.operator) (hround : m.round = some r)
      (hempty : r.bought = 0) :
      Step m ⟨s, .cancel⟩ { m with round := none, free := m.free + m.locked, locked := 0 }
  | sell {s : K} {n cost : ℕ} {r : Round} (hfrozen : m.frozen = false) (hpaused : m.paused = false)
      (hround : m.round = some r) (hn : 0 < n) (hsize : r.bought + n ≤ r.terms.size)
      (hcost : cost = r.terms.cost m.scale n) (hpos : 0 < cost) (hmoney : cost ≤ m.money) :
      Step m ⟨s, .sell n cost⟩
        { m with
          round := some { r with bought := r.bought + n, paid := r.paid + cost }
          money := m.money - cost
          goods := m.goods + n }
  | settle {s : K} {r : Round} {charge alloc : K →₀ ℕ} {carry : ℕ} (hround : m.round = some r)
      (hmode : (r.bought = r.terms.size ∧ charge = m.locked ∧ m.frozen = false) ∨
        (s = m.operator ∧ 0 < r.bought ∧ charge.degree = r.paid))
      (hcharge : charge ≤ m.locked) (halloc : alloc.support = m.locked.support)
      (hgoods : alloc.degree + carry = r.bought + m.carry) :
      Step m ⟨s, .settle charge alloc carry⟩
        { m with
          round := none
          rounds := m.rounds + 1
          carry := carry
          free := m.free + (m.locked - charge)
          locked := 0
          owed := m.owed + alloc.mapDomain (Prod.mk m.rounds) }
  | claim {s : K} {i n : ℕ} (hfrozen : m.frozen = false) (hn : 0 < n) (howed : m.owed (i, s) = n)
      (hgoods : n ≤ m.goods) :
      Step m ⟨s, .claim i n⟩
        { m with owed := m.owed - Finsupp.single (i, s) n, goods := m.goods - n }

/-- A market that has just opened. -/
structure Opening (m : State K) : Prop where
  nominee : m.nominee = none
  round : m.round = none
  rounds : m.rounds = 0
  carry : m.carry = 0
  free : m.free = 0
  locked : m.locked = 0
  owed : m.owed = 0
  money : m.money = 0
  goods : m.goods = 0

/-! ## What changes hands -/

/-- The money an event brings in. -/
def Event.moneyIn (e : Event K) : ℕ :=
  match e.action with
  | .deposit n => n
  | _ => 0

/-- The money an event takes out. -/
def Event.moneyOut (e : Event K) : ℕ :=
  match e.action with
  | .withdraw n => n
  | .refund _ n => n
  | .sell _ cost => cost
  | _ => 0

/-- The goods an event brings in. -/
def Event.goodsIn (e : Event K) : ℕ :=
  match e.action with
  | .sell n _ => n
  | _ => 0

/-- The goods an event takes out. -/
def Event.goodsOut (e : Event K) : ℕ :=
  match e.action with
  | .claim _ n => n
  | _ => 0

variable {m m' : State K} {e : Event K} {l : List (Event K)}

lemma Step.money_eq (h : Step m e m') : m'.money + e.moneyOut = m.money + e.moneyIn := by
  cases h with
  | withdraw _ _ _ hmoney => exact Nat.sub_add_cancel hmoney
  | refund _ _ _ hmoney => exact Nat.sub_add_cancel hmoney
  | sell _ _ _ _ _ _ _ hmoney => exact Nat.sub_add_cancel hmoney
  | _ => rfl

lemma Step.goods_eq (h : Step m e m') : m'.goods + e.goodsOut = m.goods + e.goodsIn := by
  cases h with
  | claim _ _ _ hgoods => exact Nat.sub_add_cancel hgoods
  | _ => rfl

/-- Only a nomination and its acceptance touch the operator and the nominee. -/
lemma Step.operator_eq (h : Step m e m') (hnominate : ∀ k, e.action ≠ .nominate k)
    (haccept : e.action ≠ .accept) : m'.operator = m.operator ∧ m'.nominee = m.nominee := by
  cases h with
  | nominate => exact absurd rfl (hnominate _)
  | accept => exact absurd rfl haccept
  | _ => exact ⟨rfl, rfl⟩

end Market
