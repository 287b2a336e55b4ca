import FloorProgram.Market.Refinement

/-!
# Runs of the program as runs of the market

What follows for whole runs from the refinement, and from who may do what.

* `runs_refine_market` — every run from a deployment is a run of a market that has just opened, cut
  into the pieces that the transactions show.
* `vaults_balance` — a run moves through the vaults what its receipts say, and nothing else.
* `admin_handover` — whoever becomes admin was offered the role by the admin of that time, and took
  it up while the offer stood.
* `frozen_run` — while the contract is frozen only the admin acts, and nothing leaves but refunds.
-/

namespace Floor

open Checked Loop Keyed Search Transition

variable {env : Env} {w w₀ w' : World} {h : List (Entry World Tx)}

/-- **Every run of the program is a run of the market.**  Transaction by transaction the events have
the signer of the transaction, are of a kind its instruction allows, and move what its receipt
says. -/
theorem runs_refine_market (hw₀ : Initial env w₀) (hh : History env w₀ h w) :
    Market.Opening (w₀.market env) ∧
      ∃ ls, List.Forall₂ Shows h.reverse ls ∧
        Steps Market.Step (w₀.market env) ls.flatten (w.market env) :=
  ⟨opening_of_initial hw₀, (program_simulates_market env).run (.start hw₀) hh⟩

/-- A full round, a claim, and the round after it. -/
def tradedRound : List (Context × Instruction) :=
  threeInvestors 100000 5000000000 ++
    [sell 0 2000000000, (signedBy 22 200 [], .ClaimWaln 11 0), sell 1 2000000000]

theorem runs_refine_market_tradedRound :
    ∃ w₀ h w, Initial (sampleEnv 9) w₀ ∧ History (sampleEnv 9) w₀ h w ∧ h.length = 10 ∧
      (Market.Opening (w₀.market (sampleEnv 9)) ∧
        ∃ ls, List.Forall₂ Shows h.reverse ls ∧
          Steps Market.Step (w₀.market (sampleEnv 9)) ls.flatten (w.market (sampleEnv 9))) := by
  obtain ⟨w₀, h, w, hw₀, hh, hlen⟩ := exists_sample_history 9 1000000000 2000000000 tradedRound
    (fun _ h _ => decide (h.length = 10)) (by decide +kernel)
  exact ⟨w₀, h, w, hw₀, hh, of_decide_eq_true hlen, runs_refine_market hw₀ hh⟩

/-! ## The vaults -/

/-- What is read off the events of every transaction adds up over a run. -/
lemma sum_flatten_of_shows {f : Market.Event Pubkey → ℕ} {g : Receipt → ℕ}
    {ls : List (List (Market.Event Pubkey))} (hshows : List.Forall₂ Shows h.reverse ls)
    (hfg : ∀ e l, Shows e l → (l.map f).sum = g e.label.receipt) :
    (ls.flatten.map f).sum = (h.map fun e => g e.label.receipt).sum := by
  have hsums : ls.map (fun l => (l.map f).sum) = h.reverse.map fun e => g e.label.receipt :=
    map_eq_of_forall₂ hshows hfg
  rw [List.map_flatten, List.sum_flatten, List.map_map]
  exact (congrArg List.sum hsums).trans (by rw [List.map_reverse, List.sum_reverse])

/-- **The vaults balance.**  What a run pays out of a vault, and what is left there, is what was
there and what the run paid in. -/
theorem vaults_balance (hw₀ : Reachable env w₀) (hh : History env w₀ h w) :
    w.usdcVault + (h.map fun e => e.label.receipt.usdcOut).sum
        = w₀.usdcVault + (h.map fun e => e.label.receipt.usdcIn).sum ∧
      w.walnVault + (h.map fun e => e.label.receipt.walnOut).sum
        = w₀.walnVault + (h.map fun e => e.label.receipt.walnIn).sum := by
  obtain ⟨ls, hshows, hsteps⟩ := (program_simulates_market env).run hw₀ hh
  have hmoney := hsteps.sum_eq (f := Market.State.money) fun _ _ _ _ hstep => hstep.money_eq
  have hgoods := hsteps.sum_eq (f := Market.State.goods) fun _ _ _ _ hstep => hstep.goods_eq
  rw [sum_flatten_of_shows hshows fun _ _ hl => hl.usdcOut,
    sum_flatten_of_shows hshows fun _ _ hl => hl.usdcIn] at hmoney
  rw [sum_flatten_of_shows hshows fun _ _ hl => hl.walnOut,
    sum_flatten_of_shows hshows fun _ _ hl => hl.walnIn] at hgoods
  exact ⟨hmoney, hgoods⟩

/-! ## The admin -/

/-- Apart from the two instructions of the handover, nothing touches the admin or the nominee. -/
lemma Reachable.admin_kept {tx : Tx} (hw : Reachable env w) (hstep : Step env w tx w')
    (htransfer : ∀ k, tx.instr ≠ .TransferAuthority k) (haccept : tx.instr ≠ .AcceptAuthority) :
    w'.state.admin = w.state.admin ∧
      toNominee w'.state.pendingAdmin = toNominee w.state.pendingAdmin := by
  obtain ⟨l, hshows, hsteps⟩ := hw.matched hstep
  refine hsteps.invariant (P := fun m => m.operator = w.state.admin ∧
    m.nominee = toNominee w.state.pendingAdmin) (fun e he m m' hm hst => ?_) ⟨rfl, rfl⟩
  have hkind := hshows.kind e he
  have hnominate : ∀ k, e.action ≠ .nominate k := by
    intro k hk
    rw [hk] at hkind
    cases hi : tx.instr <;> simp only [hi, Instruction.Allows] at hkind
    exact htransfer _ hi
  have hno : e.action ≠ .accept := by
    intro hk
    rw [hk] at hkind
    cases hi : tx.instr <;> simp only [hi, Instruction.Allows] at hkind
    exact haccept hi
  obtain ⟨hoperator, hnominee⟩ := hst.operator_eq hnominate hno
  exact ⟨hoperator.trans hm.1, hnominee.trans hm.2⟩

lemma toNominee_injective : Function.Injective toNominee := by
  intro j k hjk
  unfold toNominee at hjk
  split_ifs at hjk with hj hk hk
  · rw [hj, hk]
  · exact Option.some.inj hjk

/-- Who becomes admin was pending, and says so itself. -/
lemma Reachable.accepted {tx : Tx} (hw : Reachable env w) (hstep : Step env w tx w')
    (hne : w.state.admin ≠ w'.state.admin) :
    tx.instr = .AcceptAuthority ∧ tx.ctx.signer = w'.state.admin ∧
      w.state.pendingAdmin = w'.state.admin ∧ w.state.pendingAdmin ≠ 0 := by
  have haccept : tx.instr = .AcceptAuthority := by
    by_contra hno
    by_cases htransfer : ∃ k, tx.instr = .TransferAuthority k
    · obtain ⟨k, hk⟩ := htransfer
      simp only [Step, hk, exec, transferAuthority, adminSet_eq_ok] at hstep
      obtain ⟨-, -, rfl, -⟩ := hstep
      exact hne rfl
    · exact hne (hw.admin_kept hstep (fun k hk => htransfer ⟨k, hk⟩) hno).1.symm
  simp only [Step, haccept, exec, acceptAuthority, bind_eq_ok, ensure_eq_ok, pure_eq_ok,
    Prod.mk.injEq] at hstep
  obtain ⟨_, hpending, _, hsigner, rfl, -⟩ := hstep
  exact ⟨haccept, hsigner.symm, rfl, hpending⟩

/-- Who becomes pending was named by the admin. -/
lemma Reachable.nominated {tx : Tx} (hw : Reachable env w) (hstep : Step env w tx w')
    (hne : w.state.pendingAdmin ≠ w'.state.pendingAdmin) (hsome : w'.state.pendingAdmin ≠ 0) :
    tx.instr = .TransferAuthority w'.state.pendingAdmin ∧ tx.ctx.signer = w.state.admin := by
  by_cases htransfer : ∃ k, tx.instr = .TransferAuthority k
  · obtain ⟨k, hk⟩ := htransfer
    simp only [Step, hk, exec, transferAuthority, adminSet_eq_ok] at hstep
    obtain ⟨hsigned, -, rfl, -⟩ := hstep
    exact ⟨hk, hsigned.symm⟩
  · exfalso
    by_cases haccept : tx.instr = .AcceptAuthority
    · simp only [Step, haccept, exec, acceptAuthority, bind_eq_ok, pure_eq_ok,
        Prod.mk.injEq] at hstep
      obtain ⟨_, -, _, -, rfl, -⟩ := hstep
      exact hsome rfl
    · have hkept := hw.admin_kept hstep (fun k hk => htransfer ⟨k, hk⟩) haccept
      exact hne (toNominee_injective hkept.2).symm

lemma Initial.nobody_pending (h : Initial env w) : w.state.pendingAdmin = 0 := by
  have hopening := (opening_of_initial h).nominee
  by_contra hsome
  exact absurd hopening (by simp [World.market, toNominee, hsome])

/-- What precedes a change of the admin: the new admin accepts the role by its own signature, and
before that the admin of the time offered it to this key, an offer that was not withdrawn in
between. -/
structure Handover (accept : Entry World Tx) (before : List (Entry World Tx)) : Prop where
  accepted : accept.label.instr = .AcceptAuthority
  signer : accept.label.ctx.signer = accept.post.state.admin
  offered : ∃ middle offer earlier, before = middle ++ offer :: earlier ∧
    offer.label.instr = .TransferAuthority accept.post.state.admin ∧
    offer.label.ctx.signer = offer.pre.state.admin ∧
    ∀ e ∈ middle, e.post.state.pendingAdmin = accept.post.state.admin

/-- One change of the admin. -/
lemma History.handover {accept : Entry World Tx} {before : List (Entry World Tx)}
    (hw₀ : Initial env w₀) (hbefore : History env w₀ before accept.pre)
    (hstep : Step env accept.pre accept.label accept.post)
    (hne : accept.pre.state.admin ≠ accept.post.state.admin) : Handover accept before := by
  obtain ⟨haccept, hsigner, hpending, hsome⟩ :=
    Reachable.accepted (hbefore.reachable hw₀) hstep hne
  obtain ⟨middle, offer, earlier, rfl, hearlier, hoffer, hpre, hpost, hmiddle⟩ :=
    (hbefore.last_change fun w => w.state.pendingAdmin).resolve_left
      fun hkept => hsome (hkept.1.trans hw₀.nobody_pending)
  obtain ⟨htransfer, hsigned⟩ := Reachable.nominated (hearlier.reachable (.start hw₀)) hoffer
    (hpost.symm ▸ hpre) (hpost.symm ▸ hsome)
  rw [hpost, hpending] at htransfer
  exact ⟨haccept, hsigner, middle, offer, earlier, rfl, htransfer, hsigned,
    fun e he => (hmiddle e he).trans hpending⟩

/-- **The handover.**  Over a run the admin changes only by a handover; either the deployer has the
role throughout, or the admin has it since the last handover. -/
theorem admin_handover (hw₀ : Initial env w₀) (hh : History env w₀ h w) :
    (∀ later accept before, h = later ++ accept :: before →
      accept.pre.state.admin ≠ accept.post.state.admin → Handover accept before) ∧
    ((w.state.admin = w₀.state.admin ∧ ∀ e ∈ h, e.post.state.admin = w₀.state.admin) ∨
      ∃ later accept before, h = later ++ accept :: before ∧ Handover accept before ∧
        accept.post.state.admin = w.state.admin ∧
        ∀ e ∈ later, e.post.state.admin = w.state.admin) := by
  refine ⟨fun later accept before hsplit hne => ?_, ?_⟩
  · subst hsplit
    obtain ⟨u, hu, -⟩ := Transition.Trace.of_append hh
    obtain ⟨hbefore, hstep, -⟩ := hu.of_cons
    exact History.handover hw₀ hbefore hstep hne
  · refine (hh.last_change fun w => w.state.admin).imp_right ?_
    rintro ⟨later, accept, before, hsplit, hbefore, hstep, hpre, hpost, hlater⟩
    have hchange : Handover accept before :=
      History.handover hw₀ hbefore hstep (hpost.symm ▸ hpre)
    exact ⟨later, accept, before, hsplit, hchange, hpost, hlater⟩

/-- The role is offered, the offer is replaced, the second one is taken up, and the role goes back
to the deployer. -/
def secondOffer : List (Context × Instruction) :=
  [(signedBy 1 1 [], .TransferAuthority 2), (signedBy 1 1 [], .TransferAuthority 3),
   (signedBy 3 1 [], .AcceptAuthority), (signedBy 3 1 [], .SetFrozen true),
   (signedBy 3 1 [], .TransferAuthority 1), (signedBy 1 1 [], .AcceptAuthority)]

/-- The last step of a run makes `k` the admin. -/
def appointsLast (k : Pubkey) : List (Entry World Tx) → Bool
  | e :: _ => decide (e.pre.state.admin ≠ e.post.state.admin ∧ e.post.state.admin = k)
  | [] => false

theorem admin_handover_secondOffer :
    ∃ w₀ accept before w, Initial (sampleEnv 9) w₀ ∧
      History (sampleEnv 9) w₀ (accept :: before) w ∧ w₀.state.admin = 1 ∧
      accept.post.state.admin = 1 ∧ Handover accept before := by
  obtain ⟨w₀, h, w, hw₀, hh, hcheck⟩ := exists_sample_history 9 1000000000 2000000000 secondOffer
    (fun w₀ h _ => decide (w₀.state.admin = 1) && appointsLast 1 h) (by decide +kernel)
  match h, hh, hcheck with
  | [], _, hcheck => simp [appointsLast] at hcheck
  | accept :: before, hh, hcheck =>
      simp only [appointsLast, Bool.and_eq_true, decide_eq_true_eq] at hcheck
      obtain ⟨hdeployer, hchange, hadmin⟩ := hcheck
      exact ⟨w₀, accept, before, w, hw₀, hh, hdeployer, hadmin,
        (admin_handover hw₀ hh).1 [] accept before rfl hchange⟩

/-! ## The freeze -/

/-- What may happen while the contract is frozen: the admin acts, or the pending admin accepts, and
nothing leaves but the deposit of an investor that is removed. -/
structure FrozenEntry (e : Entry World Tx) : Prop where
  signer : e.label.ctx.signer = e.pre.state.admin ∨
    e.label.instr = .AcceptAuthority ∧ e.label.ctx.signer = e.pre.state.pendingAdmin
  receipt : e.label.receipt = {} ∨ ∃ k m r, e.label.instr = .RemoveInvestorFromPool k m ∧
    lookup byInvestor k e.pre.pool.investors = some r ∧
    e.label.receipt = { usdcOut := r.usdcDeposited }

lemma exec_frozen {ctx : Context} {i : Instruction} {r : Receipt} (hw : Reachable env w)
    (hfrozen : w.state.frozen = true) (hx : exec env ctx i w = .ok (w', r)) :
    FrozenEntry ⟨w, ⟨ctx, i, r⟩, w'⟩ ∧ w'.walnVault = w.walnVault ∧
      w'.usdcVault + r.usdcOut = w.usdcVault := by
  have hno : i.freezes = false := by
    by_contra hyes
    have := exec_unfrozen (by simpa using hyes) hx
    rw [hfrozen] at this
    cases this
  have hsigner : ctx.signer = w.state.admin ∨
      i = .AcceptAuthority ∧ ctx.signer = w.state.pendingAdmin := by
    cases hi : i.adminOnly with
    | true => exact .inl (exec_admin hi hx)
    | false =>
        cases i with
        | AcceptAuthority =>
            simp only [exec, acceptAuthority, bind_eq_ok, ensure_eq_ok] at hx
            obtain ⟨_, -, _, hsigned, -⟩ := hx
            exact .inr ⟨rfl, hsigned.symm⟩
        | DepositUsdc | WithdrawUsdc | SellWaln | ClaimWaln => cases hno
        | _ => cases hi
  obtain ⟨hinv, hround⟩ := reachable_inv hw
  cases exec_effect hinv hround hx with
  | @Remove k m j x hj hget hk hlock hvault =>
      have hr : lookup byInvestor k w.pool.investors = some x := by
        rw [lookup_eq_some_iff hinv.keys, ← hget]
        exact ⟨List.getElem_mem hj, hget.symm ▸ hk⟩
      exact ⟨⟨hsigner, .inr ⟨_, _, _, rfl, hr, rfl⟩⟩, rfl, Nat.sub_add_cancel hvault⟩
  | Close _ _ hsettled =>
      exact ⟨⟨hsigner, .inl rfl⟩, hsettled.walnVault, hsettled.usdcVault⟩
  | Deposit => cases hno
  | Join => cases hno
  | Withdraw => cases hno
  | Sell => cases hno
  | SellFull => cases hno
  | Claim => cases hno
  | Mint => cases hno
  | _ => exact ⟨⟨hsigner, .inl rfl⟩, rfl, rfl⟩

/-- **A frozen run.**  As long as the contract stays frozen every transaction is signed by the admin
or accepts the role, the wALN stays where it is, and the USDC vault pays nothing but the deposits of
investors that are removed. -/
theorem frozen_run (hw₀ : Reachable env w₀) (hh : History env w₀ h w)
    (hfrozen : ∀ e ∈ h, e.pre.state.frozen = true) :
    (∀ e ∈ h, FrozenEntry e) ∧ w.walnVault = w₀.walnVault ∧
      w.usdcVault + (h.map fun e => e.label.receipt.usdcOut).sum = w₀.usdcVault := by
  induction hh with
  | nil => exact ⟨by simp, rfl, rfl⟩
  | @cons t u tx h htr hst ih =>
      obtain ⟨hentries, hwaln, husdc⟩ := ih fun e he => hfrozen e (List.mem_cons_of_mem _ he)
      obtain ⟨hentry, hwaln', husdc'⟩ :=
        exec_frozen (htr.reachable hw₀) (hfrozen _ List.mem_cons_self) hst
      refine ⟨fun e he => ?_, hwaln'.trans hwaln, ?_⟩
      · rcases List.mem_cons.mp he with rfl | he
        · exact hentry
        · exact hentries e he
      · rw [List.map_cons, List.sum_cons]
        show u.usdcVault + (tx.receipt.usdcOut + _) = w₀.usdcVault
        omega

/-- Two deposits, then a freeze. -/
def frozenLobby : List (Context × Instruction) :=
  [(signedBy 1 1 [], .MintAatNft 21 100), (signedBy 1 1 [], .MintAatNft 22 100),
   (signedBy 21 1 [], .DepositUsdc 10 (.AatNft 21) 500),
   (signedBy 22 1 [], .DepositUsdc 10 (.AatNft 22) 700), (signedBy 1 1 [], .SetFrozen true)]

/-- What the admin does during the freeze. -/
def frozenWork : List (Context × Instruction) :=
  [(signedBy 1 2 [], .UpdateAatVolume 21 0), (signedBy 1 2 [], .RemoveInvestorFromPool 21 10),
   (signedBy 1 2 [], .SetFloorPrice 3000000000)]

theorem frozen_run_refund :
    ∃ w₀ h w, Reachable (sampleEnv 9) w₀ ∧ History (sampleEnv 9) w₀ h w ∧
      w₀.usdcVault = 1200 ∧ w.usdcVault = 700 ∧
      ((∀ e ∈ h, FrozenEntry e) ∧ w.walnVault = w₀.walnVault ∧
        w.usdcVault + (h.map fun e => e.label.receipt.usdcOut).sum = w₀.usdcVault) := by
  obtain ⟨w₀, h, w, hw₀, hh, hcheck⟩ := exists_sample_history 9 1000000000 2000000000
    (frozenLobby ++ frozenWork)
    (fun _ h w => decide (w.usdcVault = 700 ∧ (h.take 3).all (fun e => e.pre.state.frozen) ∧
      (h.drop 3).head?.map (fun e => e.post.usdcVault) = some 1200))
    (by decide +kernel)
  obtain ⟨husdc, hfrozen, hlobby⟩ := of_decide_eq_true hcheck
  rw [← List.take_append_drop 3 h] at hh
  obtain ⟨w₁, hearlier, hlater⟩ := hh.of_append
  have hw₁ := hearlier.reachable (.start hw₀)
  have hvault : w₁.usdcVault = 1200 := by
    cases hdrop : h.drop 3 with
    | nil => simp [hdrop] at hlobby
    | cons e rest =>
        rw [hdrop] at hearlier hlobby
        obtain ⟨-, -, hpost⟩ := hearlier.of_cons
        rw [← hpost]
        simpa using hlobby
  exact ⟨w₁, h.take 3, w, hw₁, hlater, hvault, husdc,
    frozen_run hw₁ hlater fun e he => by simpa using List.all_eq_true.mp hfrozen e he⟩

end Floor
