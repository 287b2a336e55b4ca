import FloorProgram.Codec.Stored
import FloorProgram.Rounds.ClaimOrder

/-!
# Claims and what the SDK shows

An investor looks at its entry with `fetchInvestorAlloc` and then signs a claim.  `claim_iff_shown`
says that the look is enough: in every run at times of the clock the SDK can read the account of the
round, and a claim succeeds exactly if an entry is shown that has unlocked and is not claimed.
-/

namespace Floor

open Checked Keyed

variable {env : Env} {w w' : World} {c : ClaimCall}

/-- What the SDK shows to the signer of a claim. -/
def ClaimCall.view (lockedDisc recordDisc : Discriminator) (c : ClaimCall) (w : World) :
    Except SdkError (Option FetchedAlloc) :=
  fetchInvestorAlloc (w.connection lockedDisc recordDisc) c.roundIndex.toNat c.ctx.signer

/-- An entry that can be claimed at this time. -/
structure FetchedAlloc.Open (now : ℤ) (x : FetchedAlloc) : Prop where
  unlock : x.unlock ≤ now
  unclaimed : x.claimed = false

/-- What is shown, taken apart. -/
lemma shown_eq_some {i : ℕ} {k : Pubkey} {x : FetchedAlloc} :
    w.shown i k = some x ↔ ∃ account a, lookup lockedIndex i w.roundLockedWaln = some account ∧
      lookup InvestorAlloc.investor k account.data.investors = some a ∧
      x = fetchedAlloc account.data.unlock a := by
  simp only [World.shown, Option.bind_eq_some_iff, Option.map_eq_some_iff]
  constructor
  · rintro ⟨account, haccount, a, ha, rfl⟩
    exact ⟨account, a, haccount, ha, rfl⟩
  · rintro ⟨account, a, haccount, ha, rfl⟩
    exact ⟨account, haccount, a, ha, rfl⟩

lemma fetchedAlloc_open {now unlock : ℤ} {a : InvestorAlloc} :
    (fetchedAlloc unlock a).Open now ↔ unlock ≤ now ∧ 0 < a.walnAmount := by
  constructor
  · rintro ⟨hunlock, hunclaimed⟩
    exact ⟨hunlock, Nat.pos_of_ne_zero (of_decide_eq_false hunclaimed)⟩
  · rintro ⟨hunlock, hpos⟩
    exact ⟨hunlock, decide_eq_false hpos.ne'⟩

/-- **A claim and the entry that is shown.** -/
lemma run_iff_shown {amount : ℕ} (hw : Reachable env w)
    (hlamports : w.treasury + lockedLamports w.roundLockedWaln < 2 ^ 64)
    (hlive : w.state.frozen = false) (hmint : c.walnMint = w.state.walnMint)
    (hhooks : claimHookAccounts env c.ctx c.walnMint = .ok ())
    (haccepts : c.ctx.cpiAccepts = true) :
    (∃ w', c.run env w = .ok (w', { walnOut := amount })) ↔
      ∃ x, w.shown c.roundIndex.toNat c.ctx.signer = some x ∧ x.walnAmount = amount ∧
        x.Open c.ctx.now := by
  obtain ⟨hinv, -⟩ := reachable_inv hw
  constructor
  · rintro ⟨w', hrun⟩
    obtain ⟨account, a, hc, -, hr⟩ := ClaimCall.run_ok hinv hrun
    have hamount : amount = a.walnAmount := congrArg Receipt.walnOut hr
    exact ⟨_, shown_eq_some.mpr ⟨account, a, hc.found, hc.entry, rfl⟩, hamount.symm,
      fetchedAlloc_open.mpr ⟨hc.unlock, hc.positive⟩⟩
  · rintro ⟨x, hshown, rfl, hopen⟩
    obtain ⟨account, a, hfound, hentry, rfl⟩ := shown_eq_some.mp hshown
    obtain ⟨hunlock, hpos⟩ := fetchedAlloc_open.mp hopen
    have hindex : lockedIndex account = c.roundIndex.toNat := lookup_key hfound
    have hc : Claimable env c w account a :=
      ⟨hfound, hindex ▸ Reachable.bump hw account (lookup_mem hfound), hlive, hmint, hunlock,
        hentry, hpos, hhooks, haccepts⟩
    exact hc.run_total hinv hlamports

/-- **The SDK shows what can be claimed.**  In every run at times of the clock the SDK reads the
account of every round.  A claim with the right accounts succeeds, while the contract is not frozen,
exactly if an entry is shown that has unlocked and is not claimed, and it pays the amount shown;
afterwards the entry is shown as claimed, or not at all. -/
theorem claim_iff_shown {w₀ : World} {h : List (Transition.Entry World Tx)} (hw₀ : Initial env w₀)
    (hh : History env w₀ h w) (hnow : AtClockTimes h) (hbump : ∀ k, env.bump k < 2 ^ 8)
    (hlamports : w.treasury + lockedLamports w.roundLockedWaln < 2 ^ 64)
    (hlive : w.state.frozen = false) (hmint : c.walnMint = w.state.walnMint)
    (hhooks : claimHookAccounts env c.ctx c.walnMint = .ok ())
    (haccepts : c.ctx.cpiAccepts = true) (lockedDisc recordDisc : Discriminator) :
    ∃ shown, c.view lockedDisc recordDisc w = .ok shown ∧
      (∀ amount, (∃ w', c.run env w = .ok (w', { walnOut := amount })) ↔
        ∃ x, shown = some x ∧ x.walnAmount = amount ∧ x.Open c.ctx.now) ∧
      ∀ w' r, c.run env w = .ok (w', r) →
        c.view lockedDisc recordDisc w' = .ok none ∨
        c.view lockedDisc recordDisc w'
          = .ok (shown.map fun x => { x with walnAmount := 0, claimed := true }) := by
  have hw := History.reachable hh hw₀
  have hheaders := (History.stored hw₀ hh hbump hnow).roundLockedWaln
  refine ⟨_, Reachable.fetch_eq_shown hw fun a ha => hheaders a (lookup_mem ha),
    fun amount => run_iff_shown hw hlamports hlive hmint hhooks haccepts, fun w' r hrun => ?_⟩
  have hstep : Step env w ⟨c.ctx, .ClaimWaln c.walnMint c.roundIndex, r⟩ w' := hrun
  obtain ⟨x, hbefore, -, -, -, hafter⟩ :=
    @Reachable.claim_as_shown _ _ _ _ lockedDisc recordDisc _ _ _ hw hheaders hstep
  rw [Reachable.fetch_eq_shown hw fun a ha => hheaders a (lookup_mem ha), Except.ok.injEq]
    at hbefore
  rw [hbefore]
  exact hafter

/-- After a full round an investor sees its entry, and claims what it sees. -/
theorem claim_iff_shown_full_round :
    ∃ (w w' : World) (x : FetchedAlloc), Reachable (sampleEnv 9) w ∧
      (lateClaim 22 0).view (Vector.replicate 8 1) (Vector.replicate 8 2) w = .ok (some x) ∧
      x.walnAmount = 666666666 ∧ x.Open 200 ∧
      (lateClaim 22 0).run (sampleEnv 9) w = .ok (w', { walnOut := 666666666 }) ∧
      ((lateClaim 22 0).view (Vector.replicate 8 1) (Vector.replicate 8 2) w' = .ok none ∨
        (lateClaim 22 0).view (Vector.replicate 8 1) (Vector.replicate 8 2) w'
          = .ok (some { x with walnAmount := 0, claimed := true })) := by
  obtain ⟨w₀, h, w, hw₀, hh, hcheck⟩ := exists_sample_history 9 1000000000 2000000000
    (threeInvestors 100000 5000000000 ++ [sell 0 2000000000])
    (fun _ h w => h.all (fun e => decide (I64 e.label.ctx.now)) &&
      decide (w.treasury + lockedLamports w.roundLockedWaln < 2 ^ 64 ∧ w.state.frozen = false ∧
        (11 : Pubkey) = w.state.walnMint) &&
      paysOut w (lateClaim 22 0)) (by decide +kernel)
  simp only [Bool.and_eq_true, List.all_eq_true, decide_eq_true_eq, paysOut, isOkAnd_eq_true]
    at hcheck
  obtain ⟨⟨hnow, hlamports, hlive, hmint⟩, ⟨w', r⟩, hrun, rfl⟩ := hcheck
  obtain ⟨shown, hview, hiff, hafter⟩ :=
    claim_iff_shown hw₀ hh hnow (fun _ => show (255 : ℕ) < 2 ^ 8 by decide) hlamports hlive
      (c := lateClaim 22 0) hmint rfl rfl (Vector.replicate 8 1) (Vector.replicate 8 2)
  obtain ⟨x, rfl, hamount, hopen⟩ := (hiff 666666666).mp ⟨w', hrun⟩
  exact ⟨w, w', x, History.reachable hh hw₀, hview, hamount, hopen, hrun, hafter w' _ hrun⟩

end Floor
