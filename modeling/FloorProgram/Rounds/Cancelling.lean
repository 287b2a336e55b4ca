import FloorProgram.Rounds.Ending

/-!
# Cancelling undoes starting

The start of a round moves USDC from the deposits of its participants into their locks, and
`cancel_round` moves it back.  In between investors deposit and withdraw, and what they find are the
reduced deposits.

`World.unlockedAs` gives the locks back and changes nothing else of the pool.  A deposit or a
withdrawal that succeeds in a world succeeds in the unlocked one too, and leaves there what it left
before, unlocked (`exec_unlockedAs`).  So a whole run of them has a shadow without the round
(`execAll_unlockedAs`), and the cancelled round leaves the shadow.
-/

namespace Floor

open Checked Loop Keyed Search

variable {env : Env} {w w' u u' : World} {ctx : Context} {s : ProgramState}

/-! ## Runs of deposits and withdrawals -/

/-- A deposit, or a withdrawal of a given amount. -/
def Instruction.movesLobby : Instruction → Bool
  | .DepositUsdc _ _ _ => true
  | .WithdrawUsdc _ a => decide (a.toNat ≠ U64_MAX)
  | _ => false

/-- Run a list of instructions, all of which must succeed. -/
def execAll (env : Env) : List (Context × Instruction) → World → Except TxError World
  | [], w => .ok w
  | (ctx, i) :: l, w => do
    let (w', _) ← exec env ctx i w
    execAll env l w'

/-! ## The world without the round -/

/-- The world with every lock given back, and with the round of the state `s`. -/
def World.unlockedAs (s : ProgramState) (w : World) : World :=
  { w with
    state := { w.state with
      currentRoundFloorPrice := s.currentRoundFloorPrice
      currentRoundSizeWaln := s.currentRoundSizeWaln
      currentRoundLockPeriod := s.currentRoundLockPeriod
      currentRoundUsdcSpent := s.currentRoundUsdcSpent
      totalUsdcLockedForRound := s.totalUsdcLockedForRound
      roundStarted := s.roundStarted }
    pool := { investors := w.pool.investors.map unlockedRecord } }

/-- The world with a round started on its pool, as `sell_waln` leaves it. -/
def World.startedWith (w : World) (investors : List InvestorRecord) (price size locked : ℕ) :
    World :=
  { w with
    pool := { investors := investors }
    state := w.state.snapshot price size locked }

lemma unlockedRecord_of_moved {r r' : InvestorRecord} (hm : Moved r r')
    (hzero : r.usdcLockedCurrentRound = 0) : unlockedRecord r' = r := by
  obtain ⟨hinvestor, hcommitted, hpurchased, hvolume, hunlock, husdc⟩ := hm
  cases r
  cases r'
  simp_all [unlockedRecord, InvestorRecord.position]

/-- Giving the locks of a start back leaves the world as it was. -/
lemma unlockedAs_startedWith {investors : List InvestorRecord} {size price d volume locked : ℕ}
    (hzero : ∀ r ∈ w.pool.investors, r.usdcLockedCurrentRound = 0)
    (h : executeRoundStart w.pool.investors size price d = (investors, .ok (volume, locked))) :
    (w.startedWith investors price size locked).unlockedAs w.state = w := by
  have hmoved := (executeRoundStart_ok hzero h).moved
  have hpool : investors.map unlockedRecord = w.pool.investors := by
    have hrecords := forall₂_imp_of_mem hmoved fun r hr _ hm =>
      unlockedRecord_of_moved hm (hzero r hr)
    rw [map_eq_of_forall₂ hrecords fun _ _ h => h, List.map_id']
  simp only [World.unlockedAs, World.startedWith, hpool]
  rfl

/-! ## One call -/

lemma lookup_unlocked (k : Pubkey) (l : List InvestorRecord) :
    lookup byInvestor k (l.map unlockedRecord) = (lookup byInvestor k l).map unlockedRecord :=
  lookup_map fun _ => rfl

/-- The locks count for the lobby like the deposits. -/
lemma poolUsdc_unlocked (l : List InvestorRecord) :
    poolUsdc (l.map unlockedRecord) = poolUsdc l := by
  rw [poolUsdc, List.map_map]
  rfl

lemma creditDeposit_unlocked {now lock : ℤ} {v a : ℕ} {r r' : InvestorRecord}
    (h : creditDeposit now lock v a r = .ok r') (hroom : r.position + a < 2 ^ 64) :
    creditDeposit now lock v a (unlockedRecord r) = .ok (unlockedRecord r') := by
  obtain ⟨-, ts, hts, rfl⟩ := creditDeposit_eq_ok.mp h
  refine creditDeposit_eq_ok.mpr ⟨hroom, ts, hts, ?_⟩
  simp only [unlockedRecord, creditedRecord, InvestorRecord.position, Nat.add_right_comm]

lemma depositInto_unlocked {now lock : ℤ} {k : Pubkey} {v a : ℕ} {l l' : List InvestorRecord}
    (h : depositInto now lock k v a l = .ok l') (hroom : ∀ r ∈ l, r.position + a < 2 ^ 64) :
    depositInto now lock k v a (l.map unlockedRecord) = .ok (l'.map unlockedRecord) := by
  rw [depositInto] at h ⊢
  cases hr : lookup byInvestor k l with
  | some r =>
      simp only [hr, bind_eq_ok, pure_eq_ok] at h
      obtain ⟨r', hcredit, rfl⟩ := h
      rw [lookup_unlocked, hr, Option.map_some]
      simp only [creditDeposit_unlocked hcredit (hroom r (lookup_mem hr)), ok_bind]
      exact congrArg Except.ok (modifyFirst_map (fun _ => rfl) hr rfl)
  | none =>
      simp only [hr, bind_eq_ok, pure_eq_ok] at h
      obtain ⟨r', hcredit, rfl⟩ := h
      have hempty := creditDeposit_unlocked hcredit (creditDeposit_eq_ok.mp hcredit).1
      rw [lookup_unlocked, hr, Option.map_none, List.map_append, List.map_singleton]
      simp only [show unlockedRecord (InvestorRecord.empty k) = InvestorRecord.empty k from rfl]
        at hempty
      simp only [hempty, ok_bind]
      rfl

/-- A deposit does not see the locks. -/
lemma depositUsdc_unlockedAs {m : Pubkey} {n : AccountKey} {a : ℕ} {r : Receipt}
    (hlobby : poolUsdc u.pool.investors = u.state.totalUsdcInLobby)
    (h : depositUsdc ctx m n a u = .ok (u', r)) :
    depositUsdc ctx m n a (u.unlockedAs s) = .ok (u'.unlockedAs s, r) := by
  simp only [depositUsdc, bind_eq_ok, ensure_eq_ok, verifyAatNftAndGetAllocation_eq_ok,
    transferIn_eq_ok, arith_eq_ok, checkedAdd_eq_some, pure_eq_ok, Prod.mk.injEq] at h ⊢
  obtain ⟨_, haccount, _, hlive, _, hamount, _, hmint, nft, hnft, _, hvolume, _, hheld, _, hroom,
    _, hvault, investors, hinto, _, ⟨hfit, rfl⟩, rfl, rfl⟩ := h
  refine ⟨(), haccount, (), hlive, (), hamount, (), hmint, nft, hnft, (), hvolume, (), hheld, (),
    ?_, _, hvault, investors.map unlockedRecord, depositInto_unlocked hinto ?_, _, ⟨hfit, rfl⟩, rfl,
    rfl⟩
  · simpa [World.unlockedAs, lookup_unlocked, InvestorPool.count] using hroom
  · intro r hr
    have := position_le_poolUsdc hr
    omega

lemma debited_unlocked {k : Pubkey} {a : ℕ} {x : InvestorRecord} {l : List InvestorRecord}
    (hx : lookup byInvestor k l = some x) (hle : a ≤ x.usdcDeposited) :
    modifyFirst byInvestor k (fun r => { r with usdcDeposited := x.position - a })
        (l.map unlockedRecord)
      = (modifyFirst byInvestor k (fun r => { r with usdcDeposited := x.usdcDeposited - a }) l).map
          unlockedRecord := by
  refine modifyFirst_map (fun _ => rfl) hx ?_
  have hposition : x.position - a = x.usdcDeposited - a + x.usdcLockedCurrentRound := by
    rw [InvestorRecord.position]
    omega
  simp only [unlockedRecord, hposition]
  rfl

/-- A withdrawal of a given amount does not see the locks either. -/
lemma withdrawUsdc_unlockedAs {m : Pubkey} {a : ℕ} {r : Receipt} (ha : a ≠ U64_MAX)
    (h : withdrawUsdc ctx m a u = .ok (u', r)) :
    withdrawUsdc ctx m a (u.unlockedAs s) = .ok (u'.unlockedAs s, r) := by
  simp only [withdrawUsdc, if_neg ha, bind_eq_ok, ensure_eq_ok, okOr_eq_ok, transferOut_eq_ok,
    arith_eq_ok, checkedSub_eq_some, pure_eq_ok, Prod.mk.injEq] at h ⊢
  obtain ⟨_, hlive, _, hmint, x, hx, _, hts, _, hpos, _, hle, _, ⟨-, rfl⟩, _, hvault, _,
    ⟨hlobby, rfl⟩, rfl, rfl⟩ := h
  have hlookup : lookup byInvestor ctx.signer (u.pool.investors.map unlockedRecord)
      = some (unlockedRecord x) := by
    rw [lookup_unlocked, hx, Option.map_some]
  have hposition : a ≤ x.position := hle.trans (Nat.le_add_right _ _)
  refine ⟨(), hlive, (), hmint, unlockedRecord x, hlookup, (), hts, (), hpos, (), hposition, _,
    ⟨hposition, rfl⟩, _, hvault, _, ⟨hlobby, rfl⟩, ?_, rfl⟩
  simp only [World.unlockedAs, ← debited_unlocked hx hle]
  rfl

/-- **A call does not see the round.** -/
lemma exec_unlockedAs {i : Instruction} {r : Receipt} (hi : i.movesLobby = true)
    (hinv : Inv env (u.unlockedAs s)) (h : exec env ctx i u = .ok (u', r)) :
    exec env ctx i (u.unlockedAs s) = .ok (u'.unlockedAs s, r) := by
  have hlobby : poolUsdc u.pool.investors = u.state.totalUsdcInLobby := by
    rw [← poolUsdc_unlocked]
    exact hinv.lobby.lobby.symm
  cases i with
  | DepositUsdc => exact depositUsdc_unlockedAs hlobby h
  | WithdrawUsdc m a => exact withdrawUsdc_unlockedAs (of_decide_eq_true hi) h
  | _ => simp [Instruction.movesLobby] at hi

/-- A call changes nothing in the state but the lobby. -/
lemma exec_state {i : Instruction} {r : Receipt} (hi : i.movesLobby = true)
    (h : exec env ctx i u = .ok (u', r)) :
    ∃ lobby, u'.state = { u.state with totalUsdcInLobby := lobby } := by
  cases i with
  | DepositUsdc m n a =>
      have he : Effect env u ctx (.DepositUsdc m n a) u' r := depositUsdc_effect h
      cases he with
      | Configure hc => simp [Instruction.configures] at hc
      | ManageRent hc => simp [Instruction.managesRent] at hc
      | Deposit => exact ⟨_, rfl⟩
      | Join => exact ⟨_, rfl⟩
  | WithdrawUsdc m a =>
      have he : Effect env u ctx (.WithdrawUsdc m a) u' r := withdrawUsdc_effect h
      cases he with
      | Configure hc => simp [Instruction.configures] at hc
      | ManageRent hc => simp [Instruction.managesRent] at hc
      | Withdraw => exact ⟨_, rfl⟩
  | _ => simp [Instruction.movesLobby] at hi

/-! ## A run of calls -/

/-- What a run that succeeded did first. -/
lemma execAll_cons {c : Context × Instruction} {l : List (Context × Instruction)}
    (h : execAll env (c :: l) u = .ok u') :
    ∃ u₁ r, exec env c.1 c.2 u = .ok (u₁, r) ∧ execAll env l u₁ = .ok u' := by
  simpa only [execAll, bind_eq_ok, Prod.exists] using h

section Run

variable {l : List (Context × Instruction)}

/-- A run of calls changes nothing in the state but the lobby. -/
lemma execAll_state (hl : ∀ c ∈ l, c.2.movesLobby = true) (h : execAll env l u = .ok u') :
    ∃ lobby, u'.state = { u.state with totalUsdcInLobby := lobby } := by
  induction l generalizing u with
  | nil =>
      obtain rfl := Except.ok.inj h
      exact ⟨_, rfl⟩
  | cons c l ih =>
      obtain ⟨u₁, r, hc, hrest⟩ := execAll_cons h
      obtain ⟨lobby₁, h₁⟩ := exec_state (hl c (by simp)) hc
      obtain ⟨lobby, h₂⟩ := ih (fun c hc => hl c (by simp [hc])) hrest
      rw [h₁] at h₂
      exact ⟨lobby, h₂⟩

/-- **A run of calls does not see the round**, and leaves an unlocked world in order. -/
theorem execAll_unlockedAs (hidle : s.roundStarted = false)
    (hl : ∀ c ∈ l, c.2.movesLobby = true) (hinv : Inv env (u.unlockedAs s))
    (h : execAll env l u = .ok u') :
    execAll env l (u.unlockedAs s) = .ok (u'.unlockedAs s) ∧ Inv env (u'.unlockedAs s) := by
  induction l generalizing u with
  | nil =>
      obtain rfl := Except.ok.inj h
      exact ⟨rfl, hinv⟩
  | cons c l ih =>
      obtain ⟨u₁, r, hc, hrest⟩ := execAll_cons h
      have hshadow := exec_unlockedAs (hl c (by simp)) hinv hc
      -- the unlocked world is idle, so the invariant asks nothing of its round
      have hopen : (u.unlockedAs s).state.roundStarted = true →
          RoundOpen ((u.unlockedAs s).decimals env) (u.unlockedAs s).state :=
        fun hstarted => absurd (hidle.symm.trans hstarted) (by decide)
      obtain ⟨hinv₁, -⟩ := (exec_effect hinv hopen hshadow).inv hinv hopen
      obtain ⟨hrun, hinv'⟩ := ih (fun c hc => hl c (by simp [hc])) hinv₁ hrest
      refine ⟨?_, hinv'⟩
      rw [execAll, hshadow, ok_bind]
      exact hrun

end Run

/-! ## Cancelling -/

/-- A point of a run at which there is no round: between two transactions, or inside the sell that
has settled a round and is about to start the next one. -/
inductive Idle (env : Env) : World → Prop
  | reachable {w : World} (hw : Reachable env w) (hidle : w.state.roundStarted = false) : Idle env w
  | settled {w sold settled : World} {ctx : Context} {wm um : Pubkey} {maxWaln usdcOut : ℕ}
      {plan : SalePlan} {remaining : List AccountInfo} {allocated : List InvestorAllocated}
      {closed : RoundClosed} (hw : Reachable env w)
      (hsell : sellIntoRound env ctx wm um maxWaln w = .ok (plan, remaining, usdcOut, sold))
      (hsettle : settleWorld env ctx (env.mint wm).decimals.toNat plan.floorPriceUsdc remaining sold
        = .ok (settled, allocated, closed)) : Idle env settled.unlockedForRound

lemma Idle.inv (h : Idle env w) : Inv env w ∧ w.state.roundStarted = false := by
  cases h with
  | reachable hw hidle => exact ⟨(reachable_inv hw).1, hidle⟩
  | settled hw hsell hsettle =>
      obtain ⟨-, -, hinv, hidle⟩ := hw.settled hsell hsettle
      exact ⟨hinv, hidle⟩

/-- **Cancel undoes start.**  Let a round be started on the pool of an idle world, and let any
deposits and withdrawals of given amounts succeed while it is empty.  Then the admin can cancel it,
and finds the pool and the lobby that the same calls leave where no round was started. -/
theorem cancel_undoes_start {investors : List InvestorRecord} {size price d volume locked : ℕ}
    {l : List (Context × Instruction)} (hw : Idle env w)
    (hstart : executeRoundStart w.pool.investors size price d = (investors, .ok (volume, locked)))
    (hl : ∀ c ∈ l, c.2.movesLobby = true)
    (hrun : execAll env l (w.startedWith investors price size locked) = .ok u)
    (hadmin : ctx.signer = w.state.admin) :
    ∃ w' v, exec env ctx .CancelRound u = .ok (w', {}) ∧ execAll env l w = .ok v ∧
      w'.pool = v.pool ∧ w'.state.totalUsdcInLobby = v.state.totalUsdcInLobby := by
  obtain ⟨hinv, hidle⟩ := hw.inv
  obtain ⟨hlocks, hwaln, -⟩ := hinv.lobby.idle hidle
  have hunlocked := unlockedAs_startedWith (lockedUsdc_eq_zero.mp hlocks) hstart
  obtain ⟨hplain, hinv'⟩ := execAll_unlockedAs hidle hl (hunlocked.symm ▸ hinv) hrun
  rw [hunlocked] at hplain
  obtain ⟨lobby, hstate⟩ := execAll_state hl hrun
  have hroom : ∀ r ∈ u.pool.investors, r.position < 2 ^ 64 := by
    intro r hr
    have hmem : unlockedRecord r ∈ (u.unlockedAs w.state).pool.investors := List.mem_map_of_mem hr
    have hlt := hinv'.position_lt hmem
    exact hlt
  obtain ⟨w', hcancel, hpool, hlobby⟩ := cancelRound_of_room (by rw [hstate]; exact hadmin.symm)
    (by rw [hstate]; rfl) (by rw [hstate]; exact hwaln) hroom
  exact ⟨w', u.unlockedAs w.state, hcancel, hplain, hpool, hlobby⟩

/-- During a round one participant deposits, another withdraws, and somebody joins. -/
def busyLobby : List (Context × Instruction) :=
  [(signedBy 21 1 [], .DepositUsdc 10 (.AatNft 21) 7),
   (signedBy 22 1 [], .WithdrawUsdc 10 3),
   (signedBy 24 1 [], .DepositUsdc 10 (.AatNft 24) 20)]

/-- Three investors lock five units each of their deposits of twenty; after the calls and the cancel
every deposit is what it would have been without the round. -/
theorem cancel_undoes_start_busyLobby :
    ∃ w investors locked u w' v, Reachable (sampleEnv 9) w ∧
      lockedUsdc (w.startedWith investors 3 5000000000 locked).pool.investors = 15 ∧
      execAll (sampleEnv 9) busyLobby (w.startedWith investors 3 5000000000 locked) = .ok u ∧
      exec (sampleEnv 9) (signedBy 1 1 []) .CancelRound u = .ok (w', {}) ∧
      execAll (sampleEnv 9) busyLobby w = .ok v ∧ w'.pool = v.pool ∧
      w'.state.totalUsdcInLobby = v.state.totalUsdcInLobby ∧
      u.pool.investors.map InvestorRecord.position = [27, 17, 20, 20] := by
  obtain ⟨w₀, hist, w, hinit, hrun, hw⟩ := exists_sample_history 9 3 5000000000
    (threeInvestors 10 20 ++ [(signedBy 1 1 [], .MintAatNft 24 40)])
    (fun _ _ w => decide (w.state.roundStarted = false ∧ w.state.admin = 1 ∧
        lockedUsdc (executeRoundStart w.pool.investors 5000000000 3 9).1 = 15) &&
      isOkAnd (fun x : ℕ × ℕ =>
          isOkAnd (fun u : World => decide
              (u.pool.investors.map InvestorRecord.position = [27, 17, 20, 20]))
            (execAll (sampleEnv 9) busyLobby (w.startedWith
              (executeRoundStart w.pool.investors 5000000000 3 9).1 3 5000000000 x.2)))
        (executeRoundStart w.pool.investors 5000000000 3 9).2)
    (by decide +kernel)
  simp only [Bool.and_eq_true, decide_eq_true_eq, isOkAnd_eq_true, Prod.exists] at hw
  obtain ⟨⟨hidle, hadmin, hlocked⟩, volume, locked, hstart, u, hcalls, hpositions⟩ := hw
  have hreach := hrun.reachable hinit
  have hsigner : (signedBy 1 1 []).signer = w.state.admin := hadmin.symm
  obtain ⟨w', v, hcancel, hplain, hpool, hlobby⟩ := cancel_undoes_start (.reachable hreach hidle)
    (Prod.ext rfl hstart) (by decide) hcalls hsigner
  exact ⟨w, _, locked, u, w', v, hreach, hlocked, hcalls, hcancel, hplain, hpool, hlobby,
    hpositions⟩

end Floor
