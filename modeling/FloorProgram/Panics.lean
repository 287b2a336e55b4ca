import FloorProgram.Rounds.Arithmetic
import FloorProgram.Rounds.ForcedClose

/-!
# Panics

A panic aborts a transaction like an error does, but without a reason the caller can read.  In the
code there are these places for one.

Where the model panics as the code does: the power of ten; the `eligible` array and the loop over
it; the index of the dust winner; the index of a claim's entry and of a removed investor; the slice
that holds the accounts of a transfer hook.

Where it cannot, because the pool is a list of its first `count` slots: the slices `[..count]`, the
slot of a deposit, the last slot of a removal, and the steps of `count` by one.  `Pool.Account` has
these on the array, whose type bounds the count.

The others are out of reach by what stands in front of them: the remainder that picks the dust
winner is taken by a count that was checked, the data of a hook configuration is sliced after its
length was checked, and the discriminators go into accounts that were just created with their size.
Closing a record adds its lamports to the treasury with an `unwrap` in the framework; it overflows
only above all the lamports there can be, and here it is an error of the system program.

* `NoPanic` — the errors that are not panics; one lemma for each instruction.
* `panics_iff` — from a reachable world nothing panics but a sell of a mint with a transfer hook,
  when it gets as far as the hook and has fewer than eight accounts for it.
-/

namespace Floor

open Checked Loop Keyed Search

variable {env : Env} {w : World} {ctx : Context}

/-- An error that the program returns. -/
abbrev NoPanic (e : TxError) : Prop := e ≠ .Panicked

/-- An overflow is reported, not panicked over. -/
lemma noPanic_of_overflows {α : Type} {x : Except TxError α} (h : FailsOnly Overflows x) :
    FailsOnly NoPanic x := by
  intro e he
  rw [h e he]
  decide

/-! ## The parts of the instructions -/

/-- A power of ten that fits 128 bits is computed. -/
lemma walnScale_noPanic {d : ℕ} (h : 10 ^ d < 2 ^ 128) : FailsOnly NoPanic (walnScale d) := by
  have hscale : walnScale d = .ok (10 ^ d) := walnScale_eq_ok.mpr ⟨h, rfl⟩
  rw [hscale]
  exact failsOnly_ok _

/-- A setter panics only if its check does. -/
lemma adminSet_noPanic {check : Except TxError Unit} {update : ProgramState → ProgramState}
    (hcheck : FailsOnly NoPanic check) : FailsOnly NoPanic (adminSet ctx w check update) := by
  refine failsOnly_bind (failsOnly_ensure fun _ => by decide) fun _ _ => ?_
  exact failsOnly_bind hcheck fun _ _ => failsOnly_pure _

/-- The viability check of the setters panics over no scale a reachable world has. -/
lemma requireViableRoundParams_noPanic {size price d : ℕ} (h : 10 ^ d < 2 ^ 128) :
    FailsOnly NoPanic (requireViableRoundParams size price d) := by
  refine failsOnly_bind ?_ fun _ _ => ?_
  · exact failsOnly_bind (walnScale_noPanic h) fun _ _ => failsOnly_mulDiv (by decide) _ _ _
  · refine failsOnly_bind (failsOnly_ensure fun _ => by decide) fun _ _ => ?_
    exact failsOnly_ensure fun _ => by decide

/-- A wrong or missing NFT is an error. -/
lemma verifyAatNft_noPanic (nfts : List AatNft) (key : AccountKey) (k : Pubkey) :
    FailsOnly NoPanic (verifyAatNftAndGetAllocation nfts key k) := by
  refine failsOnly_bind (failsOnly_ensure fun _ => by decide) fun _ _ => ?_
  exact failsOnly_okOr fun _ => by decide

/-! ## Deposits, withdrawals and claims -/

/-- A deposit that does not fit its record is an overflow. -/
lemma creditDeposit_noPanic (now lock : ℤ) (v a : ℕ) (x : InvestorRecord) :
    FailsOnly NoPanic (creditDeposit now lock v a x) := by
  refine failsOnly_bind (failsOnly_arith (by decide)) fun _ _ => ?_
  refine failsOnly_bind (failsOnly_ite (fun _ => ?_) fun _ => failsOnly_ok _)
    fun _ _ => failsOnly_pure _
  exact failsOnly_bind (failsOnly_arith (by decide)) fun _ _ => failsOnly_pure _

/-- The full pool is refused before a slot is taken. -/
lemma depositUsdc_noPanic (m : Pubkey) (n : AccountKey) (a : ℕ) :
    FailsOnly NoPanic (depositUsdc ctx m n a w) := by
  refine failsOnly_bind (failsOnly_require fun _ => by decide) fun _ _ => ?_
  refine failsOnly_bind (failsOnly_ensure fun _ => by decide) fun _ _ => ?_
  refine failsOnly_bind (failsOnly_ensure fun _ => by decide) fun _ _ => ?_
  refine failsOnly_bind (failsOnly_ensure fun _ => by decide) fun _ _ => ?_
  refine failsOnly_bind (verifyAatNft_noPanic _ _ _) fun _ _ => ?_
  refine failsOnly_bind (failsOnly_ensure fun _ => by decide) fun _ _ => ?_
  refine failsOnly_bind (failsOnly_ensure fun _ => by decide) fun _ _ => ?_
  refine failsOnly_bind (failsOnly_ensure fun _ => by decide) fun _ _ => ?_
  refine failsOnly_bind (failsOnly_transferIn (by decide) _ _ _) fun _ _ => ?_
  refine failsOnly_bind ?_ fun _ _ => ?_
  · unfold depositInto
    split <;> exact failsOnly_bind (creditDeposit_noPanic _ _ _ _ _) fun _ _ => failsOnly_pure _
  · exact failsOnly_bind (failsOnly_arith (by decide)) fun _ _ => failsOnly_pure _

lemma withdrawUsdc_noPanic (m : Pubkey) (a : ℕ) : FailsOnly NoPanic (withdrawUsdc ctx m a w) := by
  refine failsOnly_bind (failsOnly_ensure fun _ => by decide) fun _ _ => ?_
  refine failsOnly_bind (failsOnly_ensure fun _ => by decide) fun _ _ => ?_
  refine failsOnly_bind (failsOnly_okOr fun _ => by decide) fun _ _ => ?_
  refine failsOnly_bind (failsOnly_ensure fun _ => by decide) fun _ _ => ?_
  refine failsOnly_bind (failsOnly_ensure fun _ => by decide) fun _ _ => ?_
  refine failsOnly_bind (failsOnly_ensure fun _ => by decide) fun _ _ => ?_
  refine failsOnly_bind (failsOnly_arith (by decide)) fun _ _ => ?_
  refine failsOnly_bind (failsOnly_transferOut (by decide) _ _ _) fun _ _ => ?_
  exact failsOnly_bind (failsOnly_arith (by decide)) fun _ _ => failsOnly_pure _

/-- The position the search finds is one of the list. -/
lemma takeAllocation_noPanic {rlw : RoundLockedWaln} (hl : LockedInv rlw) (now : ℤ) (k : Pubkey) :
    FailsOnly NoPanic (takeAllocation now k rlw) := by
  refine failsOnly_bind (failsOnly_ensure fun _ => by decide) fun _ _ => ?_
  refine failsOnly_bind (failsOnly_okOr fun _ => by decide) fun idx hidx => ?_
  obtain ⟨hlt, -⟩ := (binarySearch_eq_some_iff hl.sorted).mp (okOr_eq_ok.mp hidx)
  rw [List.getElem?_eq_getElem hlt]
  refine failsOnly_bind (failsOnly_ok _) fun _ _ => ?_
  refine failsOnly_bind (failsOnly_ensure fun _ => by decide) fun _ _ => ?_
  exact failsOnly_bind (failsOnly_arith (by decide)) fun _ _ => failsOnly_pure _

/-- The entry a claim reads is the one the search has found. -/
lemma claimWaln_noPanic (h : Inv env w) (m : Pubkey) (i : ℕ) :
    FailsOnly NoPanic (claimWaln env ctx m i w) := by
  refine failsOnly_bind (failsOnly_okOr fun _ => by decide) fun account hfound => ?_
  have hl := h.waln.accounts account (lookup_mem (okOr_eq_ok.mp hfound))
  refine failsOnly_bind (failsOnly_require fun _ => by decide) fun _ _ => ?_
  refine failsOnly_bind (failsOnly_ensure fun _ => by decide) fun _ _ => ?_
  refine failsOnly_bind (failsOnly_ensure fun _ => by decide) fun _ _ => ?_
  refine failsOnly_bind (takeAllocation_noPanic hl _ _) fun _ _ => ?_
  refine failsOnly_bind ?_ fun _ _ => ?_
  · unfold claimHookAccounts
    split
    · exact failsOnly_validateHookAccounts (by decide) (by decide) _ _ _ _
    · exact failsOnly_ok _
  refine failsOnly_bind (failsOnly_transferOut (by decide) _ _ _) fun _ _ => ?_
  refine failsOnly_bind (failsOnly_ite (fun _ => ?_) fun _ => failsOnly_ok _) fun _ _ =>
    failsOnly_pure _
  exact failsOnly_bind (failsOnly_arith (by decide)) fun _ _ => failsOnly_pure _

/-! ## The admin's instructions -/

/-- The slot that is freed is the one the search has found. -/
lemma removeInvestorFromPool_noPanic (k m : Pubkey) :
    FailsOnly NoPanic (removeInvestorFromPool ctx k m w) := by
  refine failsOnly_bind (failsOnly_ensure fun _ => by decide) fun _ _ => ?_
  refine failsOnly_bind (failsOnly_ensure fun _ => by decide) fun _ _ => ?_
  refine failsOnly_bind (failsOnly_okOr fun _ => by decide) fun idx hidx => ?_
  obtain ⟨hlt, -⟩ := position_eq_some (okOr_eq_ok.mp hidx)
  rw [List.getElem?_eq_getElem hlt]
  refine failsOnly_bind (failsOnly_ok _) fun _ _ => ?_
  refine failsOnly_bind (failsOnly_ensure fun _ => by decide) fun _ _ => ?_
  refine failsOnly_bind (failsOnly_ite (fun _ => ?_) fun _ => failsOnly_ok _) fun _ _ =>
    failsOnly_pure _
  refine failsOnly_bind (failsOnly_transferOut (by decide) _ _ _) fun _ _ => ?_
  exact failsOnly_bind (failsOnly_arith (by decide)) fun _ _ => failsOnly_pure _

/-- Refunding a record can only overflow. -/
lemma cancelRound_noPanic : FailsOnly NoPanic (cancelRound ctx w) := by
  refine failsOnly_bind (failsOnly_ensure fun _ => by decide) fun _ _ => ?_
  refine failsOnly_bind (failsOnly_ensure fun _ => by decide) fun _ _ => ?_
  refine failsOnly_bind (failsOnly_ensure fun _ => by decide) fun _ _ => ?_
  refine failsOnly_bind (failsOnly_committed (failsOnly_forMut (fun _ _ => ?_) _ _)) fun _ _ =>
    failsOnly_pure _
  refine failsOnly_ite (fun _ => failsOnly_ok _) fun _ => ?_
  exact failsOnly_bind (failsOnly_arith (by decide)) fun _ _ => failsOnly_pure _

/-- A forced close has no index, and its divisors are checked. -/
lemma closePool_noPanic (scale price waln paid : ℕ) (investors : List InvestorRecord) :
    FailsOnly NoPanic (closePool scale price waln paid investors) := by
  refine failsOnly_bind (failsOnly_foldlM (fun _ _ => ?_) _ _) fun _ _ => ?_
  · refine failsOnly_ite (fun _ => failsOnly_ok _) fun _ => ?_
    refine failsOnly_bind (failsOnly_mulDiv (by decide) _ _ _) fun _ _ => ?_
    refine failsOnly_bind (failsOnly_arith (by decide)) fun _ _ => ?_
    exact failsOnly_bind (failsOnly_arith (by decide)) fun _ _ => failsOnly_pure _
  refine failsOnly_bind (failsOnly_ensure fun _ => by decide) fun _ _ => ?_
  refine failsOnly_bind (failsOnly_ensure fun _ => by decide) fun _ _ => ?_
  refine failsOnly_bind (failsOnly_ensure fun _ => by decide) fun _ _ => ?_
  refine failsOnly_bind (failsOnly_foldlM (fun _ _ => ?_) _ _) fun _ _ => ?_
  · refine failsOnly_ite (fun _ => failsOnly_ok _) fun _ => ?_
    refine failsOnly_bind (failsOnly_mulDivU64 (by decide) _ _ _) fun _ _ => ?_
    exact failsOnly_arith (by decide)
  refine failsOnly_bind (failsOnly_arith (by decide)) fun _ _ => ?_
  refine failsOnly_bind (failsOnly_committed (failsOnly_forMut (fun _ _ => ?_) _ _)) fun _ _ => ?_
  · exact noPanic_of_overflows (closeRecord_failsOnly _ _ _)
  refine failsOnly_bind (failsOnly_ensure fun _ => by decide) fun _ _ => ?_
  exact failsOnly_bind (failsOnly_ensure fun _ => by decide) fun _ _ => failsOnly_pure _

/-- The scale of a reachable world fits, and the rest is arithmetic and account creation. -/
lemma closeRound_noPanic (h : Inv env w) : FailsOnly NoPanic (closeRound env ctx w) := by
  refine failsOnly_bind (failsOnly_ensure fun _ => by decide) fun _ _ => ?_
  refine failsOnly_bind (failsOnly_ensure fun _ => by decide) fun _ _ => ?_
  refine failsOnly_bind (failsOnly_ensure fun _ => by decide) fun _ _ => ?_
  split
  · refine failsOnly_bind (failsOnly_ensure fun _ => by decide) fun _ _ => ?_
    refine failsOnly_bind (failsOnly_ensure fun _ => by decide) fun _ _ => ?_
    refine failsOnly_bind (walnScale_noPanic (h.viable.decimals ▸ h.viable.scale)) fun _ _ => ?_
    refine failsOnly_bind (failsOnly_arith (by decide)) fun _ _ => ?_
    refine failsOnly_bind (closePool_noPanic _ _ _ _ _) fun _ _ => ?_
    refine failsOnly_bind (failsOnly_writeRoundLockedWaln (by decide)) fun _ _ => ?_
    refine failsOnly_bind (failsOnly_writeRoundRecord (by decide)) fun _ _ => ?_
    refine failsOnly_bind (failsOnly_arith (by decide)) fun _ _ => ?_
    refine failsOnly_bind (failsOnly_arith (by decide)) fun _ _ => ?_
    refine failsOnly_bind (failsOnly_arith (by decide)) fun _ _ => ?_
    exact failsOnly_bind (failsOnly_arith (by decide)) fun _ _ => failsOnly_pure _
  · exact failsOnly_error (by decide)

/-! ## Sells -/

/-- The plan computes a power of ten if there is no round yet. -/
lemma planSale_noPanic (h : Inv env w) (wm um : Pubkey) (maxWaln : ℕ) :
    FailsOnly NoPanic (planSale w.state (env.mint wm).decimals.toNat wm um maxWaln) := by
  refine failsOnly_bind (failsOnly_ensure fun _ => by decide) fun _ _ => ?_
  refine failsOnly_bind (failsOnly_ensure fun _ => by decide) fun _ _ => ?_
  refine failsOnly_bind (failsOnly_ensure fun _ => by decide) fun _ _ => ?_
  refine failsOnly_bind (failsOnly_ensure fun _ => by decide) fun _ hmint => ?_
  obtain rfl := ensure_eq_ok.mp hmint
  refine failsOnly_bind (failsOnly_ensure fun _ => by decide) fun _ _ => ?_
  refine failsOnly_bind (failsOnly_arith (by decide)) fun _ _ => ?_
  refine failsOnly_bind (failsOnly_ensure fun _ => by decide) fun _ _ => ?_
  refine failsOnly_bind (failsOnly_arith (by decide)) fun _ _ => ?_
  refine failsOnly_bind (failsOnly_ite (fun _ => failsOnly_ok _) fun _ => ?_) fun _ _ => ?_
  · refine failsOnly_bind (walnScale_noPanic h.viable.scale) fun _ _ => ?_
    refine failsOnly_bind (failsOnly_mulDiv (by decide) _ _ _) fun _ _ => ?_
    exact failsOnly_ensure fun _ => by decide
  · exact failsOnly_bind (failsOnly_ensure fun _ => by decide) fun _ _ => failsOnly_pure _

/-- The start of a round finds participants, or none. -/
lemma openRound_noPanic {wm um : Pubkey} {maxWaln : ℕ} {plan : SalePlan} (h : Inv env w)
    (hplan : planSale w.state (env.mint wm).decimals.toNat wm um maxWaln = .ok plan) :
    FailsOnly NoPanic (openRound w.pool plan (env.mint wm).decimals.toNat) := by
  obtain ⟨rfl, hplanned⟩ := planSale_ok hplan
  rw [hplanned.plan_eq]
  cases hstarted : w.state.roundStarted with
  | true => exact failsOnly_ok _
  | false =>
      refine failsOnly_bind (failsOnly_committed ?_) fun _ _ => failsOnly_pure _
      simp only [ProgramState.effectiveSize, ProgramState.effectivePrice, hstarted,
        Bool.false_eq_true, if_false]
      rcases h.executeRoundStart_total with ⟨_, _, _, hstart⟩ | hstart
      · rw [World.decimals] at hstart
        rw [hstart]
        exact failsOnly_ok _
      · rw [World.decimals] at hstart
        rw [hstart]
        exact failsOnly_error (by decide)

/-- The dust winner is one of the participants counted. -/
lemma settlePool_noPanic {scale price : ℕ} (now : ℤ) (dust : ℕ) (investors : List InvestorRecord) :
    FailsOnly NoPanic (settlePool scale price now dust investors) := by
  have hrecord := failsOnly_settleRecord (P := NoPanic) (by decide) scale price
  refine failsOnly_bind (failsOnly_committed (failsOnly_forMut hrecord _ _))
    fun ⟨charged, t⟩ hloop => ?_
  obtain ⟨-, -, -, hcount, hdata⟩ := forMut_settleRecord
    (Prod.ext (committed_eq_ok.mp hloop).1 (committed_eq_ok.mp hloop).2)
  simp only [SettleTotals.zero, Nat.zero_add, List.nil_append] at hcount hdata
  refine failsOnly_ite (fun hpos => ?_) fun _ => failsOnly_ok _
  -- the winner's index is below the number of participants counted along with the entries
  have hidx : (now % 2 ^ 64).toNat % t.participantCountForDust < t.participantData.length := by
    rw [hdata, List.length_map, ← hcount]
    exact Nat.mod_lt _ hpos.2
  simp only [List.getElem?_eq_getElem hidx]
  refine failsOnly_bind (failsOnly_arith (by decide)) fun _ _ => ?_
  refine failsOnly_bind (failsOnly_arith (by decide)) fun _ _ => ?_
  exact failsOnly_bind (failsOnly_creditWinner (by decide) _ _ _) fun _ _ => failsOnly_pure _

/-- A settlement that lacks an account is refused. -/
lemma settleWorld_noPanic {d price : ℕ} (hscale : 10 ^ d < 2 ^ 128) (remaining : List AccountInfo)
    (w : World) : FailsOnly NoPanic (settleWorld env ctx d price remaining w) := by
  unfold settleWorld
  split
  · refine failsOnly_bind (failsOnly_arith (by decide)) fun _ _ => ?_
    refine failsOnly_bind (failsOnly_ensure fun _ => by decide) fun _ _ => ?_
    refine failsOnly_bind (failsOnly_ensure fun _ => by decide) fun _ _ => ?_
    refine failsOnly_bind (walnScale_noPanic hscale) fun _ _ => ?_
    refine failsOnly_bind (settlePool_noPanic _ _ _) fun _ _ => ?_
    refine failsOnly_bind (failsOnly_writeRoundLockedWaln (by decide)) fun _ _ => ?_
    refine failsOnly_bind (failsOnly_mapM fun _ _ => ?_) fun _ _ => ?_
    · exact failsOnly_bind (failsOnly_mulDivU64 (by decide) _ _ _) fun _ _ => failsOnly_pure _
    refine failsOnly_bind (failsOnly_writeRoundRecord (by decide)) fun _ _ => ?_
    refine failsOnly_bind (failsOnly_arith (by decide)) fun _ _ => ?_
    refine failsOnly_bind (failsOnly_arith (by decide)) fun _ _ => ?_
    refine failsOnly_bind ?_ fun _ _ => failsOnly_pure _
    refine failsOnly_bind (failsOnly_arith (by decide)) fun _ _ => ?_
    refine failsOnly_bind (failsOnly_arith (by decide)) fun _ _ => ?_
    exact failsOnly_arith (by decide)
  · exact failsOnly_error (by decide)

/-- The settlement of a full round, with the start of the next one. -/
lemma settleFullRound_noPanic {remaining : List AccountInfo} (h : Inv env w)
    (hstarted : w.state.roundStarted = true) :
    FailsOnly NoPanic (settleFullRound env ctx (w.decimals env) w.state.currentRoundFloorPrice
      remaining w) := by
  refine failsOnly_bind (settleWorld_noPanic h.viable.scale _ _)
    fun ⟨settled, allocated, closed⟩ hsettle => ?_
  obtain ⟨dust, hsettled, -⟩ := settleWorld_ok h hstarted hsettle
  obtain ⟨next, hnext⟩ := autoStart_total (inv_settled h hstarted hsettled).1
  rw [hsettled.decimals_eq] at hnext
  simp only [hnext, ok_bind]
  exact failsOnly_pure _

/-- What comes before a panic has succeeded. -/
lemma panicked_of_bind {α β : Type} {x : Except TxError α} {f : α → Except TxError β}
    (hx : FailsOnly NoPanic x) (h : (x >>= f) = .error .Panicked) :
    ∃ a, x = .ok a ∧ f a = .error .Panicked := by
  cases x with
  | error e =>
      rw [error_bind] at h
      exact absurd (Except.error.inj h) (hx e rfl)
  | ok a => exact ⟨a, rfl, h⟩

/-- A sell of a mint with a transfer hook gets as far as the hook, and has fewer than eight accounts
for it. -/
structure CutShort (env : Env) (ctx : Context) (w : World) (wm um : Pubkey) (maxWaln : ℕ)
    (plan : SalePlan) (pool : InvestorPool) (locked usdcOut : ℕ) (hook : Pubkey) : Prop where
  planned : planSale w.state (env.mint wm).decimals.toNat wm um maxWaln = .ok plan
  opened : openRound w.pool plan (env.mint wm).decimals.toNat = .ok (pool, locked)
  out : mulDivU64 plan.walnAmount plan.floorPriceUsdc (10 ^ (env.mint wm).decimals.toNat)
    = .ok usdcOut
  out_pos : 0 < usdcOut
  hook : getHookProgramId env wm = some hook
  short : ctx.remainingAccounts.length < 8

/-- Of the payment, only the slice of the hook's accounts can panic. -/
lemma paySeller_panicked {wm : Pubkey} {plan : SalePlan} {pool : InvestorPool} {locked d : ℕ}
    (hscale : 10 ^ d < 2 ^ 128) (h : paySeller env ctx wm d plan pool locked w = .error .Panicked) :
    ∃ usdcOut hook, mulDivU64 plan.walnAmount plan.floorPriceUsdc (10 ^ d) = .ok usdcOut ∧
      0 < usdcOut ∧ getHookProgramId env wm = some hook ∧ ctx.remainingAccounts.length < 8 := by
  obtain ⟨scale, hs, h⟩ := panicked_of_bind (walnScale_noPanic hscale) h
  obtain ⟨-, rfl⟩ := walnScale_eq_ok.mp hs
  obtain ⟨usdcOut, hout, h⟩ := panicked_of_bind (failsOnly_mulDivU64 (by decide) _ _ _) h
  obtain ⟨_, hpos, h⟩ := panicked_of_bind (failsOnly_ensure fun _ => by decide) h
  refine ⟨usdcOut, ?_⟩
  by_contra hno
  -- with enough accounts, or without a hook, the error is one that is returned
  have hhook : FailsOnly NoPanic (sellHookAccounts env ctx wm) := by
    unfold sellHookAccounts
    split
    · rename_i hook hfound
      refine failsOnly_bind (failsOnly_require fun hshort => ?_) fun _ _ => ?_
      · exact absurd ⟨hook, hout, ensure_eq_ok.mp hpos, hfound, by omega⟩ hno
      · exact failsOnly_bind (failsOnly_validateHookAccounts (by decide) (by decide) _ _ _ _)
          fun _ _ => failsOnly_pure _
    · exact failsOnly_ok _
  obtain ⟨_, -, h⟩ := panicked_of_bind hhook h
  obtain ⟨_, -, h⟩ := panicked_of_bind (failsOnly_transferIn (by decide) _ _ _) h
  obtain ⟨_, -, h⟩ := panicked_of_bind (failsOnly_transferOut (by decide) _ _ _) h
  obtain ⟨_, -, h⟩ := panicked_of_bind (failsOnly_arith (by decide)) h
  obtain ⟨_, -, h⟩ := panicked_of_bind (failsOnly_arith (by decide)) h
  cases h

/-- **The sells that panic.** -/
lemma sellWaln_panicked_iff {wm um : Pubkey} {maxWaln : ℕ} (hw : Reachable env w) :
    sellWaln env ctx wm um maxWaln w = .error .Panicked ↔
      ∃ plan pool locked usdcOut hook,
        CutShort env ctx w wm um maxWaln plan pool locked usdcOut hook := by
  obtain ⟨hinv, -⟩ := reachable_inv hw
  constructor
  · intro h
    cases hsell : sellIntoRound env ctx wm um maxWaln w with
    | error e =>
        rw [sellWaln, hsell, error_bind] at h
        obtain rfl := Except.error.inj h
        obtain ⟨plan, hplan, hsell⟩ := panicked_of_bind (planSale_noPanic hinv wm um maxWaln) hsell
        obtain ⟨⟨pool, locked⟩, hopen, hsell⟩ :=
          panicked_of_bind (openRound_noPanic hinv hplan) hsell
        obtain ⟨rfl, -⟩ := planSale_ok hplan
        cases hpay : paySeller env ctx w.state.walnMint (env.mint w.state.walnMint).decimals.toNat
            plan pool locked w with
        | error e =>
            simp only [hpay, error_bind, Except.error.injEq] at hsell
            obtain ⟨usdcOut, hook, hout, hpos, hhook, hshort⟩ :=
              paySeller_panicked hinv.viable.scale (hpay.trans (congrArg _ hsell))
            exact ⟨plan, pool, locked, usdcOut, hook, hplan, hopen, hout, hpos, hhook, hshort⟩
        | ok x =>
            simp only [hpay, ok_bind] at hsell
            cases hsell
    | ok x =>
        -- the settlement of a full round does not panic
        obtain ⟨plan, remaining, usdcOut, sold⟩ := x
        obtain ⟨hsold, hstarted, hdecimals, hprice, -⟩ := hw.sold hsell
        have hrest : FailsOnly NoPanic (sellWaln env ctx wm um maxWaln w) := by
          rw [sellWaln, hsell, ok_bind]
          refine failsOnly_ite (fun _ => ?_) fun _ => failsOnly_pure _
          rw [hdecimals, hprice]
          exact failsOnly_bind (settleFullRound_noPanic hsold hstarted) fun _ _ => failsOnly_pure _
        exact absurd rfl (hrest _ h)
  · rintro ⟨plan, pool, locked, usdcOut, hook, h⟩
    obtain ⟨rfl, -⟩ := planSale_ok h.planned
    have hscale : walnScale (env.mint w.state.walnMint).decimals.toNat = .ok _ :=
      walnScale_eq_ok.mpr ⟨hinv.viable.scale, rfl⟩
    have hcut : sellHookAccounts env ctx w.state.walnMint = .error .Panicked := by
      rw [sellHookAccounts, h.hook]
      simp only [require_of_not _ (not_le.mpr h.short), error_bind]
    simp only [sellWaln, sellIntoRound, h.planned, h.opened, paySeller, hscale, h.out,
      ensure_of _ h.out_pos, hcut, ok_bind, error_bind]

/-! ## All instructions -/

lemma setInvestorUsdcUnlock_noPanic (k : Pubkey) (t : ℤ) :
    FailsOnly NoPanic (setInvestorUsdcUnlock ctx k t w) := by
  refine failsOnly_bind (failsOnly_ensure fun _ => by decide) fun _ _ => ?_
  exact failsOnly_bind (failsOnly_ensure fun _ => by decide) fun _ _ => failsOnly_pure _

lemma acceptAuthority_noPanic : FailsOnly NoPanic (acceptAuthority ctx w) := by
  refine failsOnly_bind (failsOnly_ensure fun _ => by decide) fun _ _ => ?_
  exact failsOnly_bind (failsOnly_ensure fun _ => by decide) fun _ _ => failsOnly_pure _

lemma fundTreasury_noPanic (a : ℕ) : FailsOnly NoPanic (fundTreasury ctx a w) := by
  refine failsOnly_bind (failsOnly_ensure fun _ => by decide) fun _ _ => ?_
  refine failsOnly_bind (failsOnly_ensure fun _ => by decide) fun _ _ => ?_
  refine failsOnly_bind (failsOnly_require fun _ => by decide) fun _ _ => ?_
  exact failsOnly_bind (failsOnly_okOr fun _ => by decide) fun _ _ => failsOnly_pure _

lemma withdrawTreasury_noPanic (a : ℕ) : FailsOnly NoPanic (withdrawTreasury ctx a w) := by
  refine failsOnly_bind (failsOnly_ensure fun _ => by decide) fun _ _ => ?_
  refine failsOnly_bind (failsOnly_ensure fun _ => by decide) fun _ _ => ?_
  refine failsOnly_bind (failsOnly_ensure fun _ => by decide) fun _ _ => ?_
  exact failsOnly_bind (failsOnly_okOr fun _ => by decide) fun _ _ => failsOnly_pure _

/-- A volume that is out of bounds is refused. -/
lemma mintAatNft_noPanic (k : Pubkey) (v : ℕ) : FailsOnly NoPanic (mintAatNft ctx k v w) := by
  refine failsOnly_bind (failsOnly_ensure fun _ => by decide) fun _ _ => ?_
  refine failsOnly_bind (failsOnly_ensure fun _ => by decide) fun _ _ => ?_
  refine failsOnly_bind (failsOnly_ensure fun _ => by decide) fun _ _ => ?_
  refine failsOnly_bind (failsOnly_arith (by decide)) fun _ _ => ?_
  refine failsOnly_bind (failsOnly_ensure fun _ => by decide) fun _ _ => ?_
  refine failsOnly_bind (failsOnly_require fun _ => by decide) fun _ _ => ?_
  exact failsOnly_bind (failsOnly_require fun _ => by decide) fun _ _ => failsOnly_pure _

/-- The same for an update. -/
lemma updateAatVolume_noPanic (k : Pubkey) (v : ℕ) :
    FailsOnly NoPanic (updateAatVolume ctx k v w) := by
  refine failsOnly_bind (failsOnly_ensure fun _ => by decide) fun _ _ => ?_
  refine failsOnly_bind (failsOnly_ensure fun _ => by decide) fun _ _ => ?_
  refine failsOnly_bind (verifyAatNft_noPanic _ _ _) fun _ _ => ?_
  refine failsOnly_bind (failsOnly_arith (by decide)) fun _ _ => ?_
  refine failsOnly_bind (failsOnly_arith (by decide)) fun _ _ => ?_
  refine failsOnly_bind (failsOnly_ensure fun _ => by decide) fun _ _ => ?_
  exact failsOnly_bind (failsOnly_require fun _ => by decide) fun _ _ => failsOnly_pure _

/-- A record that does not exist, or is not the round's, fails a constraint. -/
lemma closeRoundRecord_noPanic (i : ℕ) : FailsOnly NoPanic (closeRoundRecord env ctx i w) := by
  refine failsOnly_bind (failsOnly_ensure fun _ => by decide) fun _ _ => ?_
  refine failsOnly_bind (failsOnly_okOr fun _ => by decide) fun _ _ => ?_
  refine failsOnly_bind (failsOnly_require fun _ => by decide) fun _ _ => ?_
  exact failsOnly_bind (failsOnly_okOr fun _ => by decide) fun _ _ => failsOnly_pure _

/-- No instruction but a sell panics. -/
lemma exec_noPanic (h : Inv env w) {i : Instruction} (hi : ∀ wm um a, i ≠ .SellWaln wm um a) :
    FailsOnly NoPanic (exec env ctx i w) := by
  have hscale : 10 ^ w.state.walnDecimals < 2 ^ 128 := h.viable.decimals ▸ h.viable.scale
  cases i with
  | SellWaln wm um a => exact absurd rfl (hi wm um a)
  | SetFloorPrice =>
      rw [exec, setFloorPrice]
      refine adminSet_noPanic (failsOnly_bind (failsOnly_ensure fun _ => by decide) fun _ _ => ?_)
      exact requireViableRoundParams_noPanic hscale
  | SetRoundSize =>
      rw [exec, setRoundSize]
      refine adminSet_noPanic (failsOnly_bind (failsOnly_ensure fun _ => by decide) fun _ _ => ?_)
      exact requireViableRoundParams_noPanic hscale
  | SetLockPeriod =>
      rw [exec, setLockPeriod]
      exact adminSet_noPanic (failsOnly_ensure fun _ => by decide)
  | SetUsdcWithdrawLock =>
      rw [exec, setUsdcWithdrawLock]
      exact adminSet_noPanic (failsOnly_ensure fun _ => by decide)
  | SetSellPaused =>
      rw [exec, setSellPaused]
      exact adminSet_noPanic (failsOnly_ok _)
  | SetFrozen =>
      rw [exec, setFrozen]
      exact adminSet_noPanic (failsOnly_ok _)
  | TransferAuthority =>
      rw [exec, transferAuthority]
      exact adminSet_noPanic (failsOnly_ok _)
  | SetInvestorUsdcUnlock => exact setInvestorUsdcUnlock_noPanic _ _
  | AcceptAuthority => exact acceptAuthority_noPanic
  | FundTreasury => exact fundTreasury_noPanic _
  | WithdrawTreasury => exact withdrawTreasury_noPanic _
  | MintAatNft => exact mintAatNft_noPanic _ _
  | UpdateAatVolume => exact updateAatVolume_noPanic _ _
  | CloseRoundRecord => exact closeRoundRecord_noPanic _
  | CancelRound => exact cancelRound_noPanic
  | RemoveInvestorFromPool => exact removeInvestorFromPool_noPanic _ _
  | CloseRound => exact closeRound_noPanic h
  | DepositUsdc => exact depositUsdc_noPanic _ _ _
  | WithdrawUsdc => exact withdrawUsdc_noPanic _ _
  | ClaimWaln => exact claimWaln_noPanic h _ _

/-- **The panics of the program.**  From a reachable world a transaction panics if and only if it is
a sell of a mint with a transfer hook that has got as far as the hook with fewer than eight
accounts. -/
theorem panics_iff (hw : Reachable env w) (i : Instruction) :
    exec env ctx i w = .error .Panicked ↔
      ∃ wm um maxWaln plan pool locked usdcOut hook, i = .SellWaln wm um maxWaln ∧
        CutShort env ctx w wm um maxWaln.toNat plan pool locked usdcOut hook := by
  constructor
  · intro h
    by_cases hi : ∀ wm um a, i ≠ .SellWaln wm um a
    · exact absurd rfl (exec_noPanic (reachable_inv hw).1 hi _ h)
    · push Not at hi
      obtain ⟨wm, um, maxWaln, rfl⟩ := hi
      obtain ⟨plan, pool, locked, usdcOut, hook, hcut⟩ := (sellWaln_panicked_iff hw).mp h
      exact ⟨wm, um, maxWaln, plan, pool, locked, usdcOut, hook, rfl, hcut⟩
  · rintro ⟨wm, um, maxWaln, plan, pool, locked, usdcOut, hook, rfl, hcut⟩
    exact (sellWaln_panicked_iff hw).mpr ⟨plan, pool, locked, usdcOut, hook, hcut⟩

/-- The sample deployment with a transfer hook on its wALN. -/
def hookedEnv : Env := { sampleEnv 9 with mint := fun _ => ⟨9, some 77, false⟩ }

/-- A check that a computation panics. -/
def panics {α : Type} : Except TxError α → Bool
  | .error .Panicked => true
  | _ => false

@[simp] lemma panics_eq_true {α : Type} {x : Except TxError α} :
    panics x = true ↔ x = .error .Panicked := by
  unfold panics
  split <;> simp_all

/-- The pool can fund the round, and the sell brings no accounts at all. -/
theorem panics_iff_noAccounts :
    ∃ w plan pool locked usdcOut, Reachable hookedEnv w ∧
      exec hookedEnv (signedBy 99 1 []) (.SellWaln 11 10 2000000000) w = .error .Panicked ∧
      CutShort hookedEnv (signedBy 99 1 []) w 11 10 2000000000 plan pool locked usdcOut 77 := by
  have hdeploy : Outcome (deploy hookedEnv (signedBy 1 1 []) 10 11 3 5000000000 100
      (threeInvestors 10 20)) (fun _ _ w =>
        panics (exec hookedEnv (signedBy 99 1 []) (.SellWaln 11 10 2000000000) w)) = true := by
    decide +kernel
  obtain ⟨w₀, hist, w, hinit, hrun, hw⟩ := exists_history hdeploy
  rw [panics_eq_true] at hw
  have hreach := hrun.reachable hinit
  obtain ⟨wm, um, maxWaln, plan, pool, locked, usdcOut, hook, hi, hcut⟩ :=
    (panics_iff hreach _).mp hw
  cases hi
  obtain rfl : 77 = hook := Option.some.inj hcut.hook
  exact ⟨w, plan, pool, locked, usdcOut, hreach, hw, hcut⟩

end Floor
