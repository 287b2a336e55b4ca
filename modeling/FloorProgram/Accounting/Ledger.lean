import FloorProgram.Settling

/-!
# The ledger of one investor

While an investor stays in the pool, its record is a ledger: what it deposited, less what it
withdrew, is deposited, locked or committed; and its lifetime wALN is the sum of what the rounds
settled in the meantime hold for it.

A stay is read off the history: the newest transactions after which the investor was in the pool.
The oldest of them is the deposit that inserted the record.
-/

namespace Floor

open Checked Loop Keyed Search

variable {env : Env} {w w₀ w' : World} {ctx : Context} {k : Pubkey}

/-! ## What a transaction books -/

/-- What `k` deposited. -/
def depositOf (k : Pubkey) (e : Transition.Entry World Tx) : ℕ :=
  match e.label.instr with
  | .DepositUsdc _ _ _ => if e.label.ctx.signer = k then e.label.receipt.usdcIn else 0
  | _ => 0

/-- What `k` withdrew. -/
def withdrawalOf (k : Pubkey) (e : Transition.Entry World Tx) : ℕ :=
  match e.label.instr with
  | .WithdrawUsdc _ _ => if e.label.ctx.signer = k then e.label.receipt.usdcOut else 0
  | _ => 0

/-- A deposit brings in the amount of the instruction; a withdrawal pays it, or all there is. -/
def MovesAsAsked (e : Transition.Entry World Tx) : Prop :=
  match e.label.instr with
  | .DepositUsdc _ _ a => e.label.receipt = { usdcIn := a.toNat }
  | .WithdrawUsdc _ a =>
    ∃ x, lookup byInvestor e.label.ctx.signer e.pre.pool.investors = some x ∧
      e.label.receipt = { usdcOut := withdrawAmount a.toNat x }
  | _ => True

/-- What the account of the round the transaction settled, if it settled one, holds for `k`. -/
def writtenFor (k : Pubkey) (e : Transition.Entry World Tx) : ℕ :=
  if e.post.state.roundCount = e.pre.state.roundCount then 0
  else
    match lookup lockedIndex e.pre.state.roundCount e.post.roundLockedWaln with
    | some account => amountOf account.data.investors k
    | none => 0

/-- The USDC a record accounts for. -/
def InvestorRecord.balance (r : InvestorRecord) : ℕ :=
  r.usdcDeposited + r.usdcLockedCurrentRound + r.usdcCommitted

/-- The record goes from `x` to `x'` by what the transaction books. -/
structure Books (k : Pubkey) (e : Transition.Entry World Tx) (x x' : InvestorRecord) : Prop where
  usdc : x'.balance + withdrawalOf k e = x.balance + depositOf k e
  waln : x'.walnPurchasedTotal = x.walnPurchasedTotal + writtenFor k e

/-- A transaction that books nothing for `k`. -/
structure Silent (k : Pubkey) (e : Transition.Entry World Tx) : Prop where
  deposit : depositOf k e = 0
  withdrawal : withdrawalOf k e = 0
  written : writtenFor k e = 0

/-- The instructions that book USDC for their signer. -/
def Instruction.transfersUsdc : Instruction → Bool
  | .DepositUsdc _ _ _ | .WithdrawUsdc _ _ => true
  | _ => false

/-- An instruction that transfers nothing and settles nothing is silent. -/
lemma silent_of_instruction {i : Instruction} {r : Receipt} (hi : i.transfersUsdc = false)
    (hcount : w'.state.roundCount = w.state.roundCount) : Silent k ⟨w, ⟨ctx, i, r⟩, w'⟩ := by
  cases i with
  | DepositUsdc | WithdrawUsdc => cases hi
  | _ => exact ⟨rfl, rfl, if_pos hcount⟩

/-- What another investor signs is silent, unless it settles. -/
lemma silent_of_signer {i : Instruction} {r : Receipt} (hk : k ≠ ctx.signer)
    (hcount : w'.state.roundCount = w.state.roundCount) : Silent k ⟨w, ⟨ctx, i, r⟩, w'⟩ := by
  cases i with
  | DepositUsdc => exact ⟨if_neg hk.symm, rfl, if_pos hcount⟩
  | WithdrawUsdc => exact ⟨rfl, if_neg hk.symm, if_pos hcount⟩
  | _ => exact ⟨rfl, rfl, if_pos hcount⟩

/-- Over a silent entry the books do not change. -/
lemma Silent.books {e : Transition.Entry World Tx} {x x' : InvestorRecord} (hs : Silent k e)
    (husdc : x'.balance = x.balance) (hwaln : x'.walnPurchasedTotal = x.walnPurchasedTotal) :
    Books k e x x' := by
  refine ⟨?_, ?_⟩
  · rw [hs.deposit, hs.withdrawal, husdc]
  · rw [hs.written, hwaln, Nat.add_zero]

lemma Moved.balance {x x' : InvestorRecord} (h : Moved x x') : x'.balance = x.balance := by
  have husdc := h.usdc
  have hcommitted := h.usdcCommitted
  simp only [InvestorRecord.balance, InvestorRecord.position] at husdc ⊢
  omega

/-! ## Finding the record again -/

/-- A record found after an update was there before, changed if it is the one. -/
lemma lookup_update {investors : List InvestorRecord} {f : InvestorRecord → InvestorRecord}
    {j : Pubkey} {x' : InvestorRecord} (hf : ∀ r, (f r).investor = r.investor)
    (h : lookup byInvestor k (modifyFirst byInvestor j f investors) = some x') :
    (k ≠ j ∧ lookup byInvestor k investors = some x') ∨
      (k = j ∧ ∃ x, lookup byInvestor k investors = some x ∧ x' = f x) := by
  rw [lookup_modifyFirst hf] at h
  split_ifs at h with hkj
  · obtain ⟨x, hx, rfl⟩ := Option.map_eq_some_iff.mp h
    exact .inr ⟨hkj, x, hx, rfl⟩
  · exact .inl ⟨hkj, h⟩

/-- A record found after a change of all records was there before, changed. -/
lemma lookup_related {R : InvestorRecord → InvestorRecord → Prop}
    {investors investors' : List InvestorRecord} {x' : InvestorRecord}
    (hR : List.Forall₂ R investors investors') (hkey : ∀ r r', R r r' → r'.investor = r.investor)
    (h : lookup byInvestor k investors' = some x') :
    ∃ x, lookup byInvestor k investors = some x ∧ R x x' := by
  rcases lookup_of_forall₂ (k := k) hR hkey with ⟨-, hnone⟩ | ⟨a, b, ha, hb, hab⟩
  · rw [hnone] at h
    cases h
  · obtain rfl := Option.some.inj (hb.symm.trans h)
    exact ⟨a, ha, hab⟩

/-- Somebody else's first deposit leaves a record where it is. -/
lemma lookup_join {investors : List InvestorRecord} {j : Pubkey} {v a : ℕ} {ts : ℤ} (hne : j ≠ k) :
    lookup byInvestor k (investors ++ [creditedRecord v a ts (InvestorRecord.empty j)])
      = lookup byInvestor k investors :=
  lookup_append_of_ne (a := creditedRecord v a ts (InvestorRecord.empty j)) hne

/-! ## One transaction -/

/-- The account a settlement wrote. -/
lemma Settles.writtenFor {tx : Tx} {now : ℤ} {mid settled : World} {entries : List InvestorAlloc}
    {usdc dust : ℕ} (h : Inv env w) (hs : Settles env now w mid settled w' entries usdc dust) :
    Floor.writtenFor k ⟨w, tx, w'⟩ = amountOf entries k := by
  obtain ⟨account, -, hfound, -, -, hentries⟩ := hs.found h
  have hcount : w'.state.roundCount ≠ w.state.roundCount := by
    rw [hs.roundCount]
    exact Nat.succ_ne_self _
  rw [Floor.writtenFor, if_neg hcount]
  simp only [hfound, hentries]

/-- The record of `k`, or the one a first deposit would start from. -/
def recordOf (k : Pubkey) (investors : List InvestorRecord) : InvestorRecord :=
  (lookup byInvestor k investors).getD (InvestorRecord.empty k)

/-- The record of a key in the pool is the one found. -/
lemma recordOf_eq {investors : List InvestorRecord} {x : InvestorRecord}
    (h : lookup byInvestor k investors = some x) : recordOf k investors = x := by
  rw [recordOf, h]
  rfl

/-- A silent entry and the same record. -/
lemma Silent.books_same {e : Transition.Entry World Tx} {investors : List InvestorRecord}
    {x : InvestorRecord} (hs : Silent k e) (hx : lookup byInvestor k investors = some x) :
    Books k e (recordOf k investors) x := by
  rw [recordOf_eq hx]
  exact hs.books rfl rfl

/-- A silent transaction that leaves the balance and the wALN of every record alone. -/
lemma Silent.books_update {e : Transition.Entry World Tx} {investors : List InvestorRecord}
    {f : InvestorRecord → InvestorRecord} {j : Pubkey} {x' : InvestorRecord} (hs : Silent k e)
    (hkey : ∀ r, (f r).investor = r.investor) (husdc : ∀ r, (f r).balance = r.balance)
    (hwaln : ∀ r, (f r).walnPurchasedTotal = r.walnPurchasedTotal)
    (hx' : lookup byInvestor k (modifyFirst byInvestor j f investors) = some x') :
    Books k e (recordOf k investors) x' := by
  rcases lookup_update hkey hx' with ⟨-, hx⟩ | ⟨-, x, hx, rfl⟩
  · exact hs.books_same hx
  · rw [recordOf_eq hx]
    exact hs.books (husdc x) (hwaln x)

/-- A silent entry and a record inside which USDC moved. -/
lemma Silent.books_moved {e : Transition.Entry World Tx}
    {investors investors' : List InvestorRecord} {x' : InvestorRecord} (hs : Silent k e)
    (hm : List.Forall₂ Moved investors investors')
    (hx' : lookup byInvestor k investors' = some x') : Books k e (recordOf k investors) x' := by
  obtain ⟨x, hx, hmoved⟩ := lookup_related hm (fun _ _ hr => hr.investor) hx'
  rw [recordOf_eq hx]
  exact hs.books hmoved.balance hmoved.walnPurchasedTotal

/-- A settlement books the wALN it wrote, and moves the lock to the committed USDC and the
deposit. -/
lemma Settles.books {tx : Tx} {now : ℤ} {mid settled : World} {entries : List InvestorAlloc}
    {usdc dust : ℕ} {x' : InvestorRecord} (h : Inv env w)
    (hs : Settles env now w mid settled w' entries usdc dust)
    (hi : tx.instr.transfersUsdc = false)
    (hx' : lookup byInvestor k w'.pool.investors = some x') :
    Books k ⟨w, tx, w'⟩ (recordOf k w.pool.investors) x' := by
  obtain ⟨x₂, hx₂, hafter⟩ := lookup_related hs.after.pool (fun _ _ hr => hr.investor) hx'
  obtain ⟨x₁, hx₁, hsettle⟩ := lookup_related hs.settle.settlement.records
    (fun _ _ hr => hr.investor) hx₂
  obtain ⟨x, hx, hbefore⟩ := lookup_related hs.before.pool (fun _ _ hr => hr.investor) hx₁
  have hdeposit : depositOf k ⟨w, tx, w'⟩ = 0 ∧ withdrawalOf k ⟨w, tx, w'⟩ = 0 := by
    obtain ⟨ctx, i, r⟩ := tx
    cases i with
    | DepositUsdc | WithdrawUsdc => cases hi
    | _ => exact ⟨rfl, rfl⟩
  have hkey : x₁.investor = k := lookup_key hx₁
  rw [recordOf_eq hx]
  refine ⟨?_, ?_⟩
  · have husdc := hsettle.usdc
    have hunlocked := hsettle.unlocked
    rw [hdeposit.1, hdeposit.2, hafter.balance, ← hbefore.balance]
    simp only [InvestorRecord.balance, InvestorRecord.position] at husdc ⊢
    omega
  · rw [hs.writtenFor h, hafter.walnPurchasedTotal, hsettle.walnPurchasedTotal,
      hbefore.walnPurchasedTotal, hkey]

/-- A deposit books its amount. -/
lemma books_credited {mint : Pubkey} {nft : AccountKey} {amount : UInt64} {v a : ℕ} {ts : ℤ}
    {r : Receipt} {x : InvestorRecord} (ha : r.usdcIn = a)
    (hcount : w'.state.roundCount = w.state.roundCount) :
    Books ctx.signer ⟨w, ⟨ctx, .DepositUsdc mint nft amount, r⟩, w'⟩ x
      (creditedRecord v a ts x) := by
  subst ha
  refine ⟨?_, ?_⟩
  · simp only [creditedRecord, InvestorRecord.balance, depositOf, withdrawalOf, if_true]
    omega
  · simp [creditedRecord, writtenFor, hcount]

/-- A withdrawal books what it paid out. -/
lemma books_debited {mint : Pubkey} {requested : UInt64} {amount : ℕ} {r : Receipt}
    {x : InvestorRecord} (ha : r.usdcOut = amount) (hle : amount ≤ x.usdcDeposited)
    (hcount : w'.state.roundCount = w.state.roundCount) :
    Books ctx.signer ⟨w, ⟨ctx, .WithdrawUsdc mint requested, r⟩, w'⟩ x
      (debitedRecord amount x) := by
  subst ha
  refine ⟨?_, ?_⟩
  · simp only [debitedRecord, InvestorRecord.balance, depositOf, withdrawalOf, if_true]
    omega
  · simp [debitedRecord, writtenFor, hcount]

/-- **One transaction**, on the record of `k`. -/
theorem Effect.books {i : Instruction} {r : Receipt} {x' : InvestorRecord} (h : Inv env w)
    (hopen : w.state.roundStarted = true → RoundOpen (w.decimals env) w.state)
    (he : Effect env w ctx i w' r) (hx' : lookup byInvestor k w'.pool.investors = some x') :
    Books k ⟨w, ⟨ctx, i, r⟩, w'⟩ (recordOf k w.pool.investors) x' := by
  cases he with
  | Configure hi | ManageRent hi =>
      have hi' : i.transfersUsdc = false := by
        cases i <;> first | rfl | cases hi
      exact Silent.books_same (silent_of_instruction hi' rfl) hx'
  | Claim | Mint => exact Silent.books_same (silent_of_instruction rfl rfl) hx'
  | @SetUnlock _ ts =>
      exact Silent.books_update (f := relockedRecord ts.toInt) (silent_of_instruction rfl rfl)
        (fun _ => rfl) (fun _ => rfl) (fun _ => rfl) hx'
  | @UpdateVolume _ v =>
      exact Silent.books_update (f := revaluedRecord v.toNat) (silent_of_instruction rfl rfl)
        (fun _ => rfl) (fun _ => rfl) (fun _ => rfl) hx'
  | @Deposit _ _ a nft _ ts =>
      rcases lookup_update (f := creditedRecord nft.aatVolume a.toNat ts) (fun _ => rfl) hx' with
        ⟨hk, hx⟩ | ⟨rfl, x, hx, rfl⟩
      · exact Silent.books_same (silent_of_signer hk rfl) hx
      · rw [recordOf_eq hx]
        exact books_credited rfl rfl
  | @Join _ _ a nft ts _ hnew =>
      by_cases hk : k = ctx.signer
      · subst hk
        have hnew' : recordOf ctx.signer w.pool.investors = InvestorRecord.empty ctx.signer := by
          rw [recordOf, hnew]
          rfl
        have hself := lookup_append_self
          (a := creditedRecord nft.aatVolume a.toNat ts (InvestorRecord.empty ctx.signer)) rfl hnew
        obtain rfl := Option.some.inj (hself.symm.trans hx')
        rw [hnew']
        exact books_credited rfl rfl
      · rw [lookup_join (Ne.symm hk)] at hx'
        exact Silent.books_same (silent_of_signer hk rfl) hx'
  | @Withdraw _ _ amount _ hr _ hle =>
      rcases lookup_update (f := debitedRecord amount) (fun _ => rfl) hx' with
        ⟨hk, hx⟩ | ⟨rfl, x, hx, rfl⟩
      · exact Silent.books_same (silent_of_signer hk rfl) hx
      · obtain rfl := Option.some.inj (hr.symm.trans hx)
        rw [recordOf_eq hx]
        exact books_debited rfl hle rfl
  | @Remove _ _ idx x hi hx hk _ _ =>
      have hne : byInvestor w.pool.investors[idx] ≠ k := by
        rintro rfl
        rw [lookup_swapRemove_self hi h.keys] at hx'
        cases hx'
      rw [lookup_swapRemove_of_ne hi h.keys hne] at hx'
      exact Silent.books_same (silent_of_instruction rfl rfl) hx'
  | Cancel =>
      exact Silent.books_moved (silent_of_instruction rfl rfl) (List.forall₂_map_right_iff.mpr
        (List.forall₂_same.mpr fun r _ => moved_unlockedRecord r)) hx'
  | Close hstarted _ hsettled => exact (settles_of_close h hstarted hsettled).books h rfl hx'
  | Sell hopened hpaid _ =>
      have hkeeps := (hopened.keeps h).trans hpaid.keeps
      exact Silent.books_moved (silent_of_instruction rfl hkeeps.roundCount) hkeeps.pool hx'
  | SellFull hopened hpaid _ hsettled _ hnext =>
      exact (settles_of_fill h hopen hopened hpaid hsettled hnext).books h rfl hx'

/-- The receipts are the amounts of the instructions. -/
lemma Effect.movesAsAsked {i : Instruction} {r : Receipt} (he : Effect env w ctx i w' r) :
    MovesAsAsked ⟨w, ⟨ctx, i, r⟩, w'⟩ := by
  cases he with
  | Configure hi | ManageRent hi =>
      cases i with
      | DepositUsdc | WithdrawUsdc => cases hi
      | _ => trivial
  | Deposit | Join => rfl
  | Withdraw hx _ _ _ hamount => exact ⟨_, hx, by rw [hamount]⟩
  | _ => trivial

/-- Every deposit and withdrawal of a run moves what it asks for. -/
lemma History.movesAsAsked {h : List (Transition.Entry World Tx)} (hinit : Initial env w₀)
    (hrun : History env w₀ h w) : ∀ e ∈ h, MovesAsAsked e := by
  refine Transition.Trace.invariant (P := fun h _ => ∀ e ∈ h, MovesAsAsked e) (by simp) ?_ hrun
  intro h w tx w' htrace ih hstep
  have he := (History.reachable htrace hinit).effect hstep
  exact List.forall_mem_cons.mpr ⟨he.movesAsAsked, ih⟩

/-! ## A stay -/

/-- The investor is in the pool. -/
def World.holds (k : Pubkey) (w : World) : Bool := (lookup byInvestor k w.pool.investors).isSome

lemma World.holds_eq_false : w.holds k = false ↔ ∀ r ∈ w.pool.investors, r.investor ≠ k := by
  rw [World.holds, Option.isSome_eq_false_iff, Option.isNone_iff_eq_none, lookup_eq_none]

/-- Keys that stay in the pool: none appears. -/
lemma holds_eq_false_of_keys (hout : w.holds k = false)
    (hkeys : ∀ r' ∈ w'.pool.investors, ∃ r ∈ w.pool.investors, r.investor = r'.investor) :
    w'.holds k = false := by
  rw [World.holds_eq_false] at hout ⊢
  intro r' hr'
  obtain ⟨r, hr, hkey⟩ := hkeys r' hr'
  exact hkey ▸ hout r hr

/-- Pools with the same keys have the same investors. -/
lemma keys_of_map {investors investors' : List InvestorRecord}
    (h : investors'.map byInvestor = investors.map byInvestor) :
    ∀ r' ∈ investors', ∃ r ∈ investors, r.investor = r'.investor := by
  intro r' hr'
  have hmem := List.mem_map_of_mem (f := byInvestor) hr'
  rw [h] at hmem
  exact List.mem_map.mp hmem

/-- A phase of a round keeps the investors of the pool. -/
lemma Keeps.keys (h : Keeps w w') :
    w'.pool.investors.map byInvestor = w.pool.investors.map byInvestor :=
  map_eq_of_forall₂ h.pool fun _ _ hm => hm.investor

/-- A settlement keeps the investors of the pool. -/
lemma Settles.keys {now : ℤ} {mid settled : World} {entries : List InvestorAlloc}
    {usdc dust : ℕ} (hs : Settles env now w mid settled w' entries usdc dust) :
    w'.pool.investors.map byInvestor = w.pool.investors.map byInvestor := by
  rw [hs.after.keys, ← hs.before.keys]
  exact map_eq_of_forall₂ hs.settle.settlement.records fun _ _ hr => hr.investor

/-- Only a deposit brings its signer into the pool. -/
lemma Effect.joins {i : Instruction} {r : Receipt} (h : Inv env w)
    (hopen : w.state.roundStarted = true → RoundOpen (w.decimals env) w.state)
    (he : Effect env w ctx i w' r) (hout : w.holds k = false) (hin : w'.holds k = true) :
    ctx.signer = k ∧ ∃ m n a, i = .DepositUsdc m n a := by
  have habsurd : (∀ r' ∈ w'.pool.investors, ∃ r ∈ w.pool.investors, r.investor = r'.investor) →
      ctx.signer = k ∧ ∃ m n a, i = .DepositUsdc m n a := fun hkeys => by
    rw [holds_eq_false_of_keys hout hkeys] at hin
    cases hin
  cases he with
  | Join =>
      refine ⟨?_, _, _, _, rfl⟩
      by_contra hne
      rw [World.holds, lookup_join hne] at hin
      exact absurd (hout.symm.trans hin) (by decide)
  | SetUnlock | Deposit | Withdraw | UpdateVolume =>
      exact habsurd (keys_of_map (map_modifyFirst fun _ => rfl))
  | Remove hi => exact habsurd fun r' hr' => ⟨r', mem_of_mem_swapRemove hi hr', rfl⟩
  | Cancel => exact habsurd (keys_of_map (by simp [unlockedRecord]))
  | Close hstarted _ hsettled =>
      exact habsurd (keys_of_map (settles_of_close h hstarted hsettled).keys)
  | Sell hopened hpaid _ =>
      exact habsurd (keys_of_map ((hopened.keeps h).trans hpaid.keeps).keys)
  | SellFull hopened hpaid _ hsettled _ hnext =>
      exact habsurd (keys_of_map (settles_of_fill h hopen hopened hpaid hsettled hnext).keys)
  | _ => exact habsurd fun r' hr' => ⟨r', hr', rfl⟩

/-- The transactions of the current stay of `k`, newest first. -/
def stay (k : Pubkey) (h : List (Transition.Entry World Tx)) : List (Transition.Entry World Tx) :=
  h.takeWhile fun e => e.post.holds k

/-- Outside the pool there is no stay. -/
lemma stay_eq_nil {h : List (Transition.Entry World Tx)} (hrun : History env w₀ h w)
    (hout : w.holds k = false) : stay k h = [] := by
  cases h with
  | nil => rfl
  | cons e h =>
      obtain ⟨-, -, rfl⟩ := hrun.of_cons
      simp [stay, hout]

/-- What the books say of a stay that led to the record `r`. -/
structure Balanced (k : Pubkey) (s : List (Transition.Entry World Tx)) (r : InvestorRecord) :
    Prop where
  usdc : (s.map (depositOf k)).sum = (s.map (withdrawalOf k)).sum + r.balance
  waln : r.walnPurchasedTotal = (s.map (writtenFor k)).sum

/-- One more entry in the books. -/
lemma Balanced.cons {s : List (Transition.Entry World Tx)} {e : Transition.Entry World Tx}
    {r r' : InvestorRecord} (hs : Balanced k s r) (he : Books k e r r') :
    Balanced k (e :: s) r' := by
  have husdc := hs.usdc
  have husdc' := he.usdc
  refine ⟨?_, ?_⟩
  · simp only [List.map_cons, List.sum_cons]
    omega
  · rw [he.waln, hs.waln, List.map_cons, List.sum_cons, Nat.add_comm]

/-- **The ledger**: for every run and every investor in the pool, over its stay, which began with
the deposit that brought it in.  The deposits and withdrawals it counts are what their instructions
asked for. -/
theorem investor_ledger {h : List (Transition.Entry World Tx)} {r : InvestorRecord}
    (hinit : Initial env w₀) (hrun : History env w₀ h w)
    (hr : lookup byInvestor k w.pool.investors = some r) :
    ((stay k h).map (depositOf k)).sum
        = ((stay k h).map (withdrawalOf k)).sum
          + (r.usdcDeposited + r.usdcLockedCurrentRound + r.usdcCommitted) ∧
      r.walnPurchasedTotal = ((stay k h).map (writtenFor k)).sum ∧
      (∃ e, (stay k h).getLast? = some e ∧ e.pre.holds k = false ∧ e.label.ctx.signer = k ∧
        ∃ m n a, e.label.instr = .DepositUsdc m n a) ∧
      ∀ e ∈ stay k h, MovesAsAsked e := by
  have hall := Transition.Trace.invariant (P := fun h w =>
    ∀ r, lookup byInvestor k w.pool.investors = some r → Balanced k (stay k h) r ∧
      ∃ e, (stay k h).getLast? = some e ∧ e.pre.holds k = false ∧ e.label.ctx.signer = k ∧
        ∃ m n a, e.label.instr = .DepositUsdc m n a) ?_ ?_ hrun r hr
  · exact ⟨hall.1.usdc, hall.1.waln, hall.2, fun e he =>
      History.movesAsAsked hinit hrun e ((List.takeWhile_sublist _).subset he)⟩
  · intro r hr
    rw [hinit.empty.1] at hr
    cases hr
  · intro h w tx w' htrace ih hstep r' hr'
    have hreach := History.reachable htrace hinit
    obtain ⟨hinv, hopen⟩ := reachable_inv hreach
    have he := hreach.effect hstep
    have hin : w'.holds k = true := by rw [World.holds, hr']; rfl
    have hstay : stay k (⟨w, tx, w'⟩ :: h) = ⟨w, tx, w'⟩ :: stay k h := by
      simp [stay, hin]
    have hbooks := he.books hinv hopen hr'
    rw [hstay]
    cases hr : lookup byInvestor k w.pool.investors with
    | some r =>
        obtain ⟨hbalanced, e, hlast, hfirst⟩ := ih r hr
        rw [recordOf_eq hr] at hbooks
        exact ⟨hbalanced.cons hbooks, e, by rw [List.getLast?_cons, hlast]; rfl, hfirst⟩
    | none =>
        -- the stay begins here
        have hout : w.holds k = false := by rw [World.holds, hr]; rfl
        have hempty : Balanced k [] (recordOf k w.pool.investors) := by
          rw [recordOf, hr]
          exact ⟨rfl, rfl⟩
        rw [stay_eq_nil htrace hout]
        exact ⟨hempty.cons hbooks, _, rfl, hout, he.joins hinv hopen hout hin⟩

/-- Investor `21` deposits twenty twice and withdraws ten; a round of fifteen units is settled in
between, for which it pays five. -/
theorem investor_ledger_one_round :
    ∃ w₀ h w r, Initial (sampleEnv 9) w₀ ∧ History (sampleEnv 9) w₀ h w ∧
      lookup byInvestor 21 w.pool.investors = some r ∧ r.usdcCommitted = 5 ∧
      ((stay 21 h).map (depositOf 21)).sum = ((stay 21 h).map (withdrawalOf 21)).sum
        + (r.usdcDeposited + r.usdcLockedCurrentRound + r.usdcCommitted) ∧
      r.walnPurchasedTotal = ((stay 21 h).map (writtenFor 21)).sum := by
  obtain ⟨w₀, hist, w, hinit, hrun, hw⟩ := exists_sample_history 9 3 5000000000
    (threeInvestors 10 20 ++ [sell 0 5000000000,
      (signedBy 21 2 [], .DepositUsdc 10 (.AatNft 21) 20), (signedBy 21 3 [], .WithdrawUsdc 10 10)])
    (fun _ _ w => (lookup byInvestor 21 w.pool.investors).map InvestorRecord.usdcCommitted
      = some 5)
    (by decide +kernel)
  simp only [decide_eq_true_eq] at hw
  obtain ⟨r, hr, hcommitted⟩ := Option.map_eq_some_iff.mp hw
  obtain ⟨husdc, hwaln, -⟩ := investor_ledger hinit hrun hr
  exact ⟨w₀, hist, w, r, hinit, hrun, hr, hcommitted, husdc, hwaln⟩

end Floor
