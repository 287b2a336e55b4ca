import FloorProgram.Market.Spec
import FloorProgram.Core.Tally
import FloorProgram.Settling

/-!
# The program as a market

`World.market` forgets how the program stores things: the pool becomes two functions from parties
to amounts, and the accounts of settled rounds become one function from rounds and parties to
amounts.  The rest of the file says what the phases of a transaction are to the market.

* `owed_claimed` — a claim takes one amount out of what is owed, whichever way it leaves the
  account.
* `Begun.market`, `Paid.market`, `Settled.market` — a phase of a sell is one step of the market.
-/

namespace Floor

open Checked Loop Keyed Search

variable {env : Env} {w w' : World} {ctx : Context} {k : Pubkey}

/-- What an account of a settled round owes. -/
noncomputable def Account.owed (a : Account RoundLockedWaln) : ℕ × Pubkey →₀ ℕ :=
  (tally InvestorAlloc.investor InvestorAlloc.walnAmount a.data.investors).mapDomain
    (Prod.mk a.data.roundIndex)

/-- What all accounts of settled rounds owe. -/
noncomputable def owedWaln (accounts : List (Account RoundLockedWaln)) : ℕ × Pubkey →₀ ℕ :=
  (accounts.map Account.owed).sum

/-- The round in progress. -/
def ProgramState.marketRound (s : ProgramState) : Option Market.Round :=
  if s.roundStarted then
    some ⟨⟨s.currentRoundFloorPrice, s.currentRoundSizeWaln⟩, s.currentRoundWaln,
      s.currentRoundUsdcSpent⟩
  else none

/-- The pending admin; the default key means nobody. -/
def toNominee (k : Pubkey) : Option Pubkey := if k = 0 then none else some k

/-- **The market a world is.** -/
noncomputable def World.market (env : Env) (w : World) : Market.State Pubkey where
  scale := 10 ^ w.decimals env
  operator := w.state.admin
  nominee := toNominee w.state.pendingAdmin
  frozen := w.state.frozen
  paused := w.state.sellPaused
  terms := ⟨w.state.floorPriceUsdc, w.state.roundSizeWaln⟩
  round := w.state.marketRound
  rounds := w.state.roundCount
  carry := w.state.walnDustCarryover
  free := tally byInvestor InvestorRecord.usdcDeposited w.pool.investors
  locked := tally byInvestor InvestorRecord.usdcLockedCurrentRound w.pool.investors
  owed := owedWaln w.roundLockedWaln
  money := w.usdcVault
  goods := w.walnVault

lemma marketRound_of_started {s : ProgramState} (h : s.roundStarted = true) :
    s.marketRound = some ⟨⟨s.currentRoundFloorPrice, s.currentRoundSizeWaln⟩, s.currentRoundWaln,
      s.currentRoundUsdcSpent⟩ := by
  rw [ProgramState.marketRound, h, if_pos rfl]

lemma marketRound_of_idle {s : ProgramState} (h : s.roundStarted = false) :
    s.marketRound = none := by
  rw [ProgramState.marketRound, h]
  rfl

/-! ## What is owed -/

lemma Account.owed_apply {a : Account RoundLockedWaln} (h : LockedInv a.data) (i : ℕ)
    (k : Pubkey) :
    a.owed (i, k) = if lockedIndex a = i then amountOf a.data.investors k else 0 := by
  rw [Account.owed]
  split_ifs with hi
  · rw [← hi, Finsupp.mapDomain_apply (Prod.mk_right_injective _), tally_apply h.sorted.nodupKeys]
    rfl
  · refine Finsupp.mapDomain_of_notMem_range _ _ ?_
    rintro ⟨j, hj⟩
    exact hi (congrArg Prod.fst hj)

/-- What a round owes an investor is the entry of the investor in the account of the round. -/
lemma owedWaln_apply {accounts : List (Account RoundLockedWaln)}
    (hindices : NodupKeys lockedIndex accounts) (haccounts : ∀ a ∈ accounts, LockedInv a.data)
    (i : ℕ) (k : Pubkey) :
    owedWaln accounts (i, k)
      = ((lookup lockedIndex i accounts).map fun a => amountOf a.data.investors k).getD 0 := by
  induction accounts with
  | nil => rfl
  | cons a accounts ih =>
      rw [NodupKeys, List.map_cons, List.nodup_cons] at hindices
      have hrest := ih hindices.2 fun b hb => haccounts b (List.mem_cons_of_mem _ hb)
      rw [owedWaln, List.map_cons, List.sum_cons, Finsupp.add_apply, ← owedWaln, hrest,
        Account.owed_apply (haccounts a List.mem_cons_self)]
      by_cases hi : lockedIndex a = i
      · have hnone : lookup lockedIndex i accounts = none := lookup_eq_none.mpr fun b hb heq =>
          hindices.1 (List.mem_map.mpr ⟨b, hb, heq.trans hi.symm⟩)
        rw [if_pos hi, hnone]
        simp [lookup, hi]
      · rw [if_neg hi, zero_add]
        simp [lookup, hi]

/-- What is left of an account once the entry of `k` is cleared. -/
lemma owed_cleared {account : Account RoundLockedWaln} {a : InvestorAlloc}
    (h : lookup InvestorAlloc.investor k account.data.investors = some a) :
    (clearedAccount k account).owed + Finsupp.single (account.data.roundIndex, k) a.walnAmount
      = account.owed := by
  have hkey : InvestorAlloc.investor (clearedAlloc a) = InvestorAlloc.investor a := rfl
  have htally := tally_modifyFirst (v := InvestorAlloc.walnAmount) hkey h
  rw [clearedAlloc, Finsupp.single_zero, add_zero] at htally
  rw [Account.owed, Account.owed, ← htally, Finsupp.mapDomain_add, Finsupp.mapDomain_single]
  rfl

/-- An account without unclaimed entries owes nothing. -/
lemma owed_eq_zero {account : Account RoundLockedWaln}
    (h : unclaimed account.data.investors = 0) : account.owed = 0 := by
  have hdegree : (tally InvestorAlloc.investor InvestorAlloc.walnAmount
      account.data.investors).degree = _ := degree_tally _
  have hzero : (account.data.investors.map InvestorAlloc.walnAmount).sum = 0 :=
    entriesWaln_eq_zero h
  rw [hzero, Finsupp.degree_eq_zero_iff] at hdegree
  rw [Account.owed, hdegree, Finsupp.mapDomain_zero]

/-- **A claim takes out what is owed to its signer**, whether the account stays or goes. -/
lemma owed_claimed {i : ℕ} {account : Account RoundLockedWaln} {a : InvestorAlloc} {r : Receipt}
    (h : Inv env w) (hc : Claimed w ctx i account a w' r) :
    owedWaln w'.roundLockedWaln + Finsupp.single (i, ctx.signer) a.walnAmount
      = owedWaln w.roundLockedWaln := by
  have hindex : lockedIndex account = i := lookup_key hc.found
  rw [lockedIndex] at hindex
  have hcleared := owed_cleared hc.entry
  rw [hindex] at hcleared
  rcases hc.accounts with ⟨hlast, haccounts⟩ | ⟨-, haccounts⟩
  · have hnone : unclaimed (clearedAccount ctx.signer account).data.investors = 0 :=
      Nat.succ_injective ((unclaimed_cleared hc.entry hc.positive).trans hlast)
    rw [owed_eq_zero hnone, zero_add] at hcleared
    rw [haccounts, owedWaln, owedWaln, sum_map_filter_ne h.waln.indices hc.found, hcleared,
      add_comm]
  · have hsum := sum_map_modifyFirst (f := clearedAccount ctx.signer) (g := Account.owed) hc.found
    rw [← hcleared, add_comm (clearedAccount ctx.signer account).owed, ← add_assoc] at hsum
    rw [haccounts]
    exact add_right_cancel hsum

lemma owed_signer {i : ℕ} {account : Account RoundLockedWaln} {a : InvestorAlloc} {r : Receipt}
    (h : Inv env w) (hc : Claimed w ctx i account a w' r) :
    owedWaln w.roundLockedWaln (i, ctx.signer) = a.walnAmount := by
  rw [owedWaln_apply h.waln.indices h.waln.accounts, hc.found]
  simp only [Option.map_some, Option.getD_some, amountOf, valueOf, hc.entry]

/-- The new account owes what its entries hold. -/
lemma owed_new {accounts : List (Account RoundLockedWaln)} {account : Account RoundLockedWaln} :
    owedWaln (accounts ++ [account])
      = owedWaln accounts
        + (tally InvestorAlloc.investor InvestorAlloc.walnAmount account.data.investors).mapDomain
          (Prod.mk account.data.roundIndex) := by
  rw [owedWaln, List.map_append, List.sum_append, List.map_singleton, List.sum_singleton]
  rfl

end Floor
