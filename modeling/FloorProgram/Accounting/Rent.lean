import FloorProgram.Rounds.Archive
import FloorProgram.Rounds.ClaimOrder

/-!
# Lamports

A settlement pays for the two accounts of its round out of the treasury; a claim that leaves nothing
to claim, and the closing of a record, return what the account holds.  Lamports that somebody sent
to an address before its account was created are used for the rent, and come back with it.

* `World.lamports` — the lamports of the treasury and of the accounts of rounds.
* `exec_lamports` — what one transaction does to them.
* `lamports_conserved` — over a run they are what was funded and sent, less what was withdrawn; and
  every account of a round holds the rent of its size.
-/

namespace Floor

open Checked Loop Keyed Search

variable {env : Env} {w w₀ w' : World} {ctx : Context} {r : Receipt}

/-- The lamports the records hold. -/
def recordLamports (l : List (Account RoundRecord)) : ℕ := (l.map Account.lamports).sum

/-- The lamports of the treasury and of the accounts of rounds. -/
def World.lamports (w : World) : ℕ :=
  w.treasury + lockedLamports w.roundLockedWaln + recordLamports w.roundRecords

/-- Every account of a round holds the rent of its size. -/
structure RentExempt (env : Env) (w : World) : Prop where
  locked : ∀ a ∈ w.roundLockedWaln,
    env.minimumBalance (RoundLockedWaln.space a.data.investors.length) ≤ a.lamports
  records : ∀ a ∈ w.roundRecords, env.minimumBalance RoundRecord.space ≤ a.lamports

/-- Lamports found at the address `k`. -/
def lamportsAt (k : AccountKey) (accounts : List AccountInfo) : ℕ :=
  valueOf AccountInfo.key AccountInfo.lamports k accounts

/-- Lamports found at the addresses of the accounts of round `i`. -/
def prefunded (i : ℕ) (accounts : List AccountInfo) : ℕ :=
  lamportsAt (.RoundLockedWaln i) accounts + lamportsAt (.RoundRecord i) accounts

/-- Lamports a transaction brings in: funding by the admin, and what a settlement finds. -/
def lamportsIn (e : Transition.Entry World Tx) : ℕ :=
  match e.label.instr with
  | .FundTreasury a => a.toNat
  | _ =>
    if e.post.state.roundCount = e.pre.state.roundCount then 0
    else prefunded e.pre.state.roundCount e.label.ctx.remainingAccounts

/-- Lamports a transaction takes out. -/
def lamportsOut (e : Transition.Entry World Tx) : ℕ :=
  match e.label.instr with
  | .WithdrawTreasury a => a.toNat
  | _ => 0

/-! ## Creating accounts -/

/-- The treasury and the new account together hold what the treasury and the address held. -/
lemma openRoundAccount_lamports {t e n t' l : ℕ} {inUse : Bool}
    (h : openRoundAccount env t e n inUse = .ok (t', l)) :
    t' + l = t + e ∧ env.minimumBalance n ≤ l := by
  obtain ⟨hle, rfl, -, rfl⟩ := openRoundAccount_eq_ok.mp h
  omega

lemma writeRoundLockedWaln_lamports {treasury lamports i treasury' : ℕ} {unlock : ℤ}
    {entries : List InvestorAlloc} {accounts accounts' : List (Account RoundLockedWaln)}
    (hne : entries ≠ [])
    (h : writeRoundLockedWaln env treasury lamports i unlock entries accounts
      = .ok (treasury', accounts')) :
    treasury' + lockedLamports accounts' = treasury + lockedLamports accounts + lamports ∧
      ∀ a ∈ accounts', a ∈ accounts ∨
        env.minimumBalance (RoundLockedWaln.space a.data.investors.length) ≤ a.lamports := by
  rw [writeRoundLockedWaln, if_neg hne] at h
  simp only [bind_eq_ok, Prod.exists, pure_eq_ok, Prod.mk.injEq] at h
  obtain ⟨_, l, hopen, rfl, rfl⟩ := h
  obtain ⟨hsum, hrent⟩ := openRoundAccount_lamports hopen
  constructor
  · simp only [lockedLamports, List.map_append, List.sum_append, List.map_cons, List.map_nil,
      List.sum_cons, List.sum_nil]
    omega
  · intro a ha
    rcases List.mem_append.mp ha with ha | ha
    · exact .inl ha
    · obtain rfl := List.mem_singleton.mp ha
      exact .inr hrent

lemma writeRoundRecord_lamports {treasury lamports treasury' : ℕ} {record : RoundRecord}
    {accounts accounts' : List (Account RoundRecord)}
    (h : writeRoundRecord env treasury lamports record accounts = .ok (treasury', accounts')) :
    treasury' + recordLamports accounts' = treasury + recordLamports accounts + lamports ∧
      ∀ a ∈ accounts', a ∈ accounts ∨ env.minimumBalance RoundRecord.space ≤ a.lamports := by
  simp only [writeRoundRecord, bind_eq_ok, Prod.exists, pure_eq_ok, Prod.mk.injEq] at h
  obtain ⟨_, l, hopen, rfl, rfl⟩ := h
  obtain ⟨hsum, hrent⟩ := openRoundAccount_lamports hopen
  constructor
  · simp only [recordLamports, List.map_append, List.sum_append, List.map_cons, List.map_nil,
      List.sum_cons, List.sum_nil]
    omega
  · intro a ha
    rcases List.mem_append.mp ha with ha | ha
    · exact .inl ha
    · obtain rfl := List.mem_singleton.mp ha
      exact .inr hrent

/-! ## One transaction -/

/-- From `w` to `w'` the lamports grow by `gain` and shrink by `loss`, and no account of a round
falls below its rent. -/
structure Moves (env : Env) (gain loss : ℕ) (w w' : World) : Prop where
  lamports : w'.lamports + loss = w.lamports + gain
  rent : RentExempt env w → RentExempt env w'

/-- A transaction that leaves the treasury and the accounts alone. -/
lemma Moves.refl (htreasury : w'.treasury = w.treasury)
    (hrecords : w'.roundRecords = w.roundRecords)
    (hlocked : w'.roundLockedWaln = w.roundLockedWaln) : Moves env 0 0 w w' where
  lamports := by rw [World.lamports, World.lamports, htreasury, hrecords, hlocked]
  rent h := ⟨by rw [hlocked]; exact h.locked, by rw [hrecords]; exact h.records⟩

lemma Moves.trans {gain gain' : ℕ} {w'' : World} (h : Moves env gain 0 w w')
    (h' : Moves env gain' 0 w' w'') : Moves env (gain + gain') 0 w w'' where
  lamports := by
    have := h.lamports
    have := h'.lamports
    omega
  rent hw := h'.rent (h.rent hw)

/-- The two accounts of a round are written, one after the other. -/
lemma moves_of_written {i treasury₁ lamports lamports' : ℕ} {unlock : ℤ} {record : RoundRecord}
    {entries : List InvestorAlloc} (hgrown : w'.roundLockedWaln ≠ w.roundLockedWaln)
    (hlocked : writeRoundLockedWaln env w.treasury lamports i unlock entries w.roundLockedWaln
      = .ok (treasury₁, w'.roundLockedWaln))
    (hrecords : writeRoundRecord env treasury₁ lamports' record w.roundRecords
      = .ok (w'.treasury, w'.roundRecords)) : Moves env (lamports + lamports') 0 w w' := by
  have hne : entries ≠ [] := by
    rintro rfl
    exact hgrown (Prod.mk.inj (Except.ok.inj hlocked)).2.symm
  obtain ⟨hsum, hrent⟩ := writeRoundLockedWaln_lamports hne hlocked
  obtain ⟨hsum', hrent'⟩ := writeRoundRecord_lamports hrecords
  refine ⟨by rw [World.lamports, World.lamports]; omega, fun h => ⟨fun a ha => ?_, fun a ha => ?_⟩⟩
  · exact (hrent a ha).elim (h.locked a) id
  · exact (hrent' a ha).elim (h.records a) id

lemma Settled.grown {now : ℤ} {entries : List InvestorAlloc} {usdc dust : ℕ}
    (hs : Settled env now entries usdc dust w w') : w'.roundLockedWaln ≠ w.roundLockedWaln := by
  obtain ⟨_, haccount⟩ := hs.account
  simp [haccount]

/-- What a settlement finds at the two addresses, in the order the caller passes them. -/
lemma prefunded_cons {i : ℕ} {recordInfo lockedInfo : AccountInfo} {rest : List AccountInfo}
    (hrecord : recordInfo.key = .RoundRecord i) (hlocked : lockedInfo.key = .RoundLockedWaln i) :
    prefunded i (recordInfo :: lockedInfo :: rest) = lockedInfo.lamports + recordInfo.lamports := by
  simp [prefunded, lamportsAt, valueOf, lookup, hrecord, hlocked]

lemma closeRound_lamports (h : Inv env w) (hx : closeRound env ctx w = .ok (w', r)) :
    Moves env (prefunded w.state.roundCount ctx.remainingAccounts) 0 w w' := by
  have hgrown : w'.roundLockedWaln ≠ w.roundLockedWaln := by
    cases closeRound_effect h hx with
    | Configure hi => cases hi
    | ManageRent hi => cases hi
    | Close _ _ hsettled => exact hsettled.grown
  simp only [closeRound, bind_eq_ok, ensure_eq_ok] at hx
  obtain ⟨_, -, _, -, _, -, hx⟩ := hx
  split at hx
  · rename_i hremaining
    simp only [bind_eq_ok, ensure_eq_ok, Prod.exists, pure_eq_ok, Prod.mk.injEq] at hx
    obtain ⟨_, hrecord, _, hlocked, _, -, _, -, _, _, -, _, _, haccounts, _, _, hrecords, _, -, _,
      -, _, -, _, -, rfl, -⟩ := hx
    rw [hremaining, prefunded_cons hrecord hlocked]
    exact moves_of_written hgrown haccounts hrecords
  · cases hx

lemma settleWorld_lamports {d price : ℕ} {remaining : List AccountInfo}
    {allocated : List InvestorAllocated} {closed : RoundClosed}
    (hgrown : w'.roundLockedWaln ≠ w.roundLockedWaln)
    (hx : settleWorld env ctx d price remaining w = .ok (w', allocated, closed)) :
    Moves env (prefunded w.state.roundCount remaining) 0 w w' := by
  unfold settleWorld at hx
  split at hx
  · simp only [bind_eq_ok, ensure_eq_ok, Prod.exists, pure_eq_ok, Prod.mk.injEq] at hx
    obtain ⟨_, -, _, hrecord, _, hlocked, _, -, _, _, -, _, _, haccounts, _, -, _, _, hrecords, _,
      -, _, -, _, -, rfl, -, -⟩ := hx
    rw [prefunded_cons hrecord hlocked]
    exact moves_of_written hgrown haccounts hrecords
  · cases hx

/-- None of the accounts a transfer hook needs is an account of a round. -/
lemma lookup_hookAccounts {l : List AccountInfo} {m p : Pubkey} {owner k : AccountKey}
    (hx : validateHookAccounts l m owner p = .ok ())
    (hk : ∃ i, k = .RoundRecord i ∨ k = .RoundLockedWaln i) :
    lookup AccountInfo.key k l = none := by
  unfold validateHookAccounts at hx
  split at hx
  · simp only [bind_eq_ok, ensure_eq_ok] at hx
    obtain ⟨_, h₁, _, -, _, h₂, _, h₃, _, h₄, _, h₅, _, h₆, _, h₇, h₈⟩ := hx
    refine lookup_eq_none.mpr fun a ha hkey => ?_
    obtain ⟨i, rfl | rfl⟩ := hk <;>
      simp only [List.mem_cons, List.not_mem_nil, or_false] at ha <;>
      rcases ha with rfl | rfl | rfl | rfl | rfl | rfl | rfl | rfl <;> simp_all
  · cases hx

/-- The hook's accounts do not hide those of the round. -/
lemma sellHookAccounts_prefunded {m : Pubkey} {rest : List AccountInfo}
    (hx : sellHookAccounts env ctx m = .ok rest) (i : ℕ) :
    prefunded i ctx.remainingAccounts = prefunded i rest := by
  unfold sellHookAccounts at hx
  split at hx
  · simp only [bind_eq_ok, pure_eq_ok] at hx
    obtain ⟨_, -, _, hvalid, rfl⟩ := hx
    have hlookup : ∀ k, (∃ i, k = .RoundRecord i ∨ k = .RoundLockedWaln i) →
        lookup AccountInfo.key k ctx.remainingAccounts
          = lookup AccountInfo.key k (ctx.remainingAccounts.drop 8) := by
      intro k hk
      have hnone := lookup_hookAccounts hvalid hk
      rw [lookup] at hnone
      conv_lhs => rw [← List.take_append_drop 8 ctx.remainingAccounts]
      rw [lookup, List.find?_append, hnone]
      rfl
    rw [prefunded, prefunded, lamportsAt, lamportsAt, lamportsAt, lamportsAt, valueOf, valueOf,
      valueOf, valueOf, hlookup _ ⟨i, .inl rfl⟩, hlookup _ ⟨i, .inr rfl⟩]
  · obtain rfl := Except.ok.inj hx
    rfl

lemma sellIntoRound_lamports {wm um : Pubkey} {maxWaln usdcOut : ℕ} {plan : SalePlan}
    {remaining : List AccountInfo} (h : Inv env w)
    (hx : sellIntoRound env ctx wm um maxWaln w = .ok (plan, remaining, usdcOut, w')) :
    Moves env 0 0 w w' ∧ w'.state.roundCount = w.state.roundCount ∧
      ∀ i, prefunded i ctx.remainingAccounts = prefunded i remaining := by
  obtain ⟨w₁, hopened, hpaid, -⟩ := sellIntoRound_ok h hx
  have hkeeps := (hopened.keeps h).trans hpaid.keeps
  have htreasury : w'.treasury = w.treasury := by
    rw [hpaid.world]
    rcases hopened with ⟨-, rfl⟩ | ⟨-, _, _, _, -, rfl⟩ <;> rfl
  refine ⟨.refl htreasury hkeeps.roundRecords hkeeps.roundLockedWaln, hkeeps.roundCount, ?_⟩
  simp only [sellIntoRound, paySeller, bind_eq_ok, Prod.exists, pure_eq_ok, Prod.mk.injEq] at hx
  obtain ⟨_, -, _, _, -, _, _, _, ⟨_, -, _, -, _, -, _, hhooks, _, -, _, -, _, -, _, -, rfl, -, -⟩,
    -, rfl, -, -⟩ := hx
  exact sellHookAccounts_prefunded hhooks

lemma autoStart_lamports {d : ℕ} (hx : autoStart d w = .ok w') :
    Moves env 0 0 w w' ∧ w'.state.roundCount = w.state.roundCount := by
  unfold autoStart at hx
  split at hx
  · obtain rfl := Except.ok.inj hx
    exact ⟨.refl rfl rfl rfl, rfl⟩
  · split_ifs at hx
    obtain rfl := Except.ok.inj hx
    exact ⟨.refl rfl rfl rfl, rfl⟩

/-- A sell settles at most one round, and pays for its accounts. -/
lemma sellWaln_lamports {wm um : Pubkey} {maxWaln : ℕ} (hw : Reachable env w)
    (hx : sellWaln env ctx wm um maxWaln w = .ok (w', r)) :
    Moves env (if w'.state.roundCount = w.state.roundCount then 0
      else prefunded w.state.roundCount ctx.remainingAccounts) 0 w w' := by
  obtain ⟨hinv, -⟩ := reachable_inv hw
  obtain ⟨plan, remaining, usdcOut, sold, hsell, hx⟩ := sellWaln_cases hx
  obtain ⟨hsold, hcount, hremaining⟩ := sellIntoRound_lamports hinv hsell
  rcases hx with ⟨-, rfl, -⟩ | ⟨-, settled, allocated, closed, hsettle, hauto, -⟩
  · rwa [if_pos hcount]
  · obtain ⟨⟨_, hsettled⟩, -⟩ := hw.settled hsell hsettle
    obtain ⟨hnext, hcount'⟩ : Moves env 0 0 settled w' ∧
        w'.state.roundCount = settled.state.roundCount := autoStart_lamports hauto
    have hgrown : settled.roundLockedWaln ≠ sold.roundLockedWaln := hsettled.grown
    have hmoves := settleWorld_lamports hgrown hsettle
    have hnew : settled.state.roundCount = w.state.roundCount + 1 := by
      rw [← hcount]
      exact congrArg ProgramState.roundCount hsettled.state
    rw [if_neg (by omega), hremaining, ← hcount]
    simpa using (hsold.trans hmoves).trans hnext

/-- Only three instructions are there to move lamports. -/
lemma lamports_of_managesRent {e : Transition.Entry World Tx}
    (he : e.label.instr.managesRent = false) :
    lamportsOut e = 0 ∧ lamportsIn e = if e.post.state.roundCount = e.pre.state.roundCount then 0
      else prefunded e.pre.state.roundCount e.label.ctx.remainingAccounts := by
  obtain ⟨_, ⟨_, a, _⟩, _⟩ := e
  cases a <;> first | exact ⟨rfl, rfl⟩ | cases he

/-- A claim returns the lamports of the account it empties. -/
lemma claimWaln_lamports {m : Pubkey} {j : UInt64} (h : Inv env w)
    (hx : exec env ctx (.ClaimWaln m j) w = .ok (w', r)) :
    Moves env 0 0 w w' ∧ w'.state.roundCount = w.state.roundCount := by
  obtain ⟨account, a, -, hdone, -⟩ := ClaimCall.run_ok (c := ⟨ctx, m, j⟩) h hx
  refine ⟨⟨?_, fun hrent => ⟨fun b hb => ?_, by rw [hdone.roundRecords]; exact hrent.records⟩⟩,
    congrArg ProgramState.roundCount hdone.state⟩
  · rw [World.lamports, World.lamports, hdone.roundRecords, hdone.lamports]
  · rw [hdone.accounts] at hb
    obtain ⟨c, hc, rfl⟩ := List.mem_map.mp (List.mem_filter.mp hb).1
    rw [lamports_clearEntry, length_clearEntry]
    exact hrent.locked c hc

/-- **Lamports**, one transaction at a time. -/
lemma exec_lamports {a : Instruction} (hw : Reachable env w)
    (hx : exec env ctx a w = .ok (w', r)) :
    Moves env (lamportsIn ⟨w, ⟨ctx, a, r⟩, w'⟩) (lamportsOut ⟨w, ⟨ctx, a, r⟩, w'⟩) w w' := by
  obtain ⟨hinv, hopen⟩ := reachable_inv hw
  have hother : a.managesRent = false → ∀ {gain}, (gain = if w'.state.roundCount
      = w.state.roundCount then 0 else prefunded w.state.roundCount ctx.remainingAccounts) →
      Moves env gain 0 w w' → Moves env (lamportsIn ⟨w, ⟨ctx, a, r⟩, w'⟩)
        (lamportsOut ⟨w, ⟨ctx, a, r⟩, w'⟩) w w' := by
    intro ha gain hgain hmoves
    obtain ⟨hout, hin⟩ := lamports_of_managesRent (e := ⟨w, ⟨ctx, a, r⟩, w'⟩) ha
    rw [hout, hin, ← hgain]
    exact hmoves
  cases exec_effect hinv hopen hx with
  | Configure hi =>
      exact hother (by cases a <;> first | rfl | cases hi) (if_pos rfl).symm (.refl rfl rfl rfl)
  | ManageRent hi =>
      cases a with
      | FundTreasury n =>
          simp only [exec, fundTreasury, bind_eq_ok, okOr_eq_ok, checkedAdd_eq_some, pure_eq_ok,
            Prod.mk.injEq, World.mk.injEq] at hx
          obtain ⟨_, -, _, -, _, -, _, ⟨-, rfl⟩, ⟨-, -, -, -, rfl, rfl, -⟩, -⟩ := hx
          exact ⟨by simp only [World.lamports, lamportsIn, lamportsOut]; omega,
            fun h => ⟨h.locked, h.records⟩⟩
      | WithdrawTreasury n =>
          simp only [exec, withdrawTreasury, bind_eq_ok, okOr_eq_ok, checkedSub_eq_some, pure_eq_ok,
            Prod.mk.injEq, World.mk.injEq] at hx
          obtain ⟨_, -, _, -, _, -, _, ⟨hle, rfl⟩, ⟨-, -, -, -, rfl, rfl, -⟩, -⟩ := hx
          refine ⟨?_, fun h => ⟨h.locked, h.records⟩⟩
          simp only [World.lamports, lamportsIn, lamportsOut, if_true]
          omega
      | CloseRoundRecord j =>
          cases exec_records hinv hopen hx with
          | Leave ha => cases ha
          | Settle ha => cases ha
          | Close _ hfound hrecords htreasury =>
              have hsum := sum_filter_ne Account.lamports hw.records_nodup hfound
              rw [← hrecords] at hsum
              refine ⟨?_, fun h => ⟨h.locked, fun b hb => h.records b ?_⟩⟩
              · simp only [World.lamports, recordLamports, lamportsIn, lamportsOut, if_true] at *
                omega
              · rw [hrecords] at hb
                exact (List.mem_filter.mp hb).1
      | _ => cases hi
  | Close _ _ hsettled =>
      have hcount : w'.state.roundCount = w.state.roundCount + 1 := by rw [hsettled.state]
      exact hother rfl (if_neg (by omega)).symm (closeRound_lamports hinv hx)
  | Sell => exact hother rfl rfl (sellWaln_lamports hw hx)
  | SellFull => exact hother rfl rfl (sellWaln_lamports hw hx)
  | Claim =>
      obtain ⟨hmoves, hcount⟩ := claimWaln_lamports hinv hx
      exact hother rfl (if_pos hcount).symm hmoves
  | _ => exact hother rfl (if_pos rfl).symm (.refl rfl rfl rfl)

/-! ## Runs -/

/-- **Lamports over a run.**  What the treasury and the accounts of rounds hold, together with what
the admin has withdrawn, is what the admin has funded and what settlements have found at the
addresses of their accounts; and every account of a round holds the rent of its size.  Anybody can
send lamports to the treasury or to an account of a round; the runs here are those in which nobody
does, once the account is there. -/
theorem lamports_conserved {h : List (Transition.Entry World Tx)} (hinit : Initial env w₀)
    (hrun : History env w₀ h w) :
    w.lamports + (h.map lamportsOut).sum = (h.map lamportsIn).sum ∧ RentExempt env w := by
  induction hrun with
  | nil =>
      obtain ⟨_, _, _, _, _, _, hw₀⟩ := hinit
      simp only [initializeHandler, bind_eq_ok, pure_eq_ok] at hw₀
      obtain ⟨_, -, _, -, _, -, _, -, _, -, _, -, rfl⟩ := hw₀
      exact ⟨rfl, by simp, by simp⟩
  | @cons w w' tx h htrace hstep ih =>
      obtain ⟨hsum, hrent⟩ := ih
      have hmoves := exec_lamports (History.reachable htrace hinit) hstep
      refine ⟨?_, hmoves.rent hrent⟩
      have hlamports := hmoves.lamports
      simp only [List.map_cons, List.sum_cons]
      change w'.lamports + lamportsOut ⟨w, tx, w'⟩
        = w.lamports + lamportsIn ⟨w, tx, w'⟩ at hlamports
      omega

/-- Three investors fill a round whose accounts hold lamports beforehand, the record less than its
rent and the other account more; all of them claim, and the admin closes the record and withdraws
half a SOL from the treasury. -/
def prefundedRound : List (Context × Instruction) :=
  threeInvestors 100000 5000000000 ++
    [(signedBy 99 1 [⟨.RoundRecord 0, 890880, none⟩, ⟨.RoundLockedWaln 0, 5000000, none⟩],
        .SellWaln 11 10 2000000000),
     (signedBy 21 200 [], .ClaimWaln 11 0), (signedBy 22 200 [], .ClaimWaln 11 0),
     (signedBy 23 200 [], .ClaimWaln 11 0), (signedBy 1 300 [], .CloseRoundRecord 0),
     (signedBy 1 300 [], .WithdrawTreasury 500000000)]

theorem lamports_conserved_prefunded_round :
    ∃ w₀ h w, Initial (sampleEnv 9) w₀ ∧ History (sampleEnv 9) w₀ h w ∧
      w.lamports = 505890880 ∧ w.treasury = 505890880 ∧
      w.lamports + (h.map lamportsOut).sum = (h.map lamportsIn).sum ∧
      RentExempt (sampleEnv 9) w := by
  obtain ⟨w₀, h, w, hinit, hrun, hcheck⟩ := exists_sample_history 9 1000000000 2000000000
    prefundedRound (fun _ _ w => decide (w.lamports = 505890880 ∧ w.treasury = 505890880))
    (by decide +kernel)
  obtain ⟨hlamports, htreasury⟩ := of_decide_eq_true hcheck
  exact ⟨w₀, h, w, hinit, hrun, hlamports, htreasury, lamports_conserved hinit hrun⟩

end Floor
