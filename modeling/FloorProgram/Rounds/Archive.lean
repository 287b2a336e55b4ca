import FloorProgram.Settling

/-!
# The records of settled rounds

Every settled round leaves a `RoundRecord`.  No transaction rewrites one: a settlement adds the
record of its round behind those that are there, and all that can happen to it later is that the
admin closes it for its rent.

* `RecordStep` — what a transaction can do to the records.
* `Reachable.records_sorted` — the records are in the order of their rounds.
* `round_archive` — the record of a settled round is the one its settlement wrote, until the one
  transaction that closes it; it does not come back.
-/

namespace Floor

open Checked Loop Keyed Search

variable {env : Env} {w w₀ w' : World} {ctx : Context} {r : Receipt} {i : ℕ}

/-- The round whose record the instruction closes. -/
def Instruction.closesRecord : Instruction → Option ℕ
  | .CloseRoundRecord j => some j.toNat
  | _ => none

/-- What a transaction can do to the records of settled rounds. -/
inductive RecordStep (w : World) (ctx : Context) : Instruction → World → Prop
  | Leave {a : Instruction} {w' : World} (ha : a.closesRecord = none)
      (hrecords : w'.roundRecords = w.roundRecords)
      (hcount : w'.state.roundCount = w.state.roundCount) : RecordStep w ctx a w'
  | Settle {a : Instruction} {w' : World} {record : Account RoundRecord}
      (ha : a.closesRecord = none) (hrecords : w'.roundRecords = w.roundRecords ++ [record])
      (hindex : recordIndex record = w.state.roundCount)
      (hnow : record.data.triggeredAt = ctx.now)
      (hcount : w'.state.roundCount = w.state.roundCount + 1) : RecordStep w ctx a w'
  | Close {j : UInt64} {w' : World} {record : Account RoundRecord}
      (hadmin : w.state.admin = ctx.signer)
      (hfound : lookup recordIndex j.toNat w.roundRecords = some record)
      (hrecords : w'.roundRecords = w.roundRecords.filter fun a => recordIndex a ≠ j.toNat)
      (htreasury : w'.treasury = w.treasury + record.lamports)
      (haccounts : w'.roundLockedWaln = w.roundLockedWaln)
      (hstate : w'.state = w.state) : RecordStep w ctx (.CloseRoundRecord j) w'

lemma Settles.recordStep {a : Instruction} {mid settled : World} {entries : List InvestorAlloc}
    {usdc dust : ℕ} (hs : Settles env ctx.now w mid settled w' entries usdc dust)
    (ha : a.closesRecord = none) : RecordStep w ctx a w' := by
  obtain ⟨_, _, hrecords⟩ := hs.record
  exact .Settle ha hrecords rfl rfl hs.roundCount

/-- **The records**, from the code. -/
lemma exec_records {a : Instruction} (h : Inv env w)
    (hopen : w.state.roundStarted = true → RoundOpen (w.decimals env) w.state)
    (hx : exec env ctx a w = .ok (w', r)) : RecordStep w ctx a w' := by
  cases exec_effect h hopen hx with
  | Configure hi => exact .Leave (by cases a <;> first | rfl | cases hi) rfl rfl
  | ManageRent hi =>
      cases a with
      | CloseRoundRecord j =>
          simp only [exec, closeRoundRecord, bind_eq_ok, adminOnly_eq_ok, okOr_eq_ok, require_eq_ok,
            checkedAdd_eq_some, pure_eq_ok, Prod.mk.injEq, World.mk.injEq] at hx
          obtain ⟨_, hadmin, _, hfound, _, -, _, ⟨-, rfl⟩, ⟨-, -, -, -, htreasury, hrecords, -⟩,
            -⟩ := hx
          exact .Close hadmin hfound hrecords.symm htreasury.symm rfl rfl
      | FundTreasury n =>
          simp only [exec, fundTreasury, bind_eq_ok, pure_eq_ok, Prod.mk.injEq, World.mk.injEq]
            at hx
          obtain ⟨_, -, _, -, _, -, _, -, ⟨-, -, -, -, -, hrecords, -⟩, -⟩ := hx
          exact .Leave rfl hrecords.symm rfl
      | WithdrawTreasury n =>
          simp only [exec, withdrawTreasury, bind_eq_ok, pure_eq_ok, Prod.mk.injEq,
            World.mk.injEq] at hx
          obtain ⟨_, -, _, -, _, -, _, -, ⟨-, -, -, -, -, hrecords, -⟩, -⟩ := hx
          exact .Leave rfl hrecords.symm rfl
      | _ => cases hi
  | Close hstarted _ hsettled => exact (settles_of_close h hstarted hsettled).recordStep rfl
  | Sell hopened hpaid _ =>
      have hkeeps := (hopened.keeps h).trans hpaid.keeps
      exact .Leave rfl hkeeps.roundRecords hkeeps.roundCount
  | SellFull hopened hpaid _ hsettled _ hnext =>
      exact (settles_of_fill h hopen hopened hpaid hsettled hnext).recordStep rfl
  | _ => exact .Leave rfl rfl rfl

/-- **The records are in the order of their rounds.** -/
theorem Reachable.records_sorted (h : Reachable env w) :
    w.roundRecords.Pairwise fun a b => recordIndex a < recordIndex b := by
  refine Transition.Reachable.invariant
    (P := fun w => w.roundRecords.Pairwise fun a b => recordIndex a < recordIndex b) ?_ ?_ h
  · rintro w ⟨_, _, _, _, _, _, hinit⟩
    simp only [initializeHandler, bind_eq_ok, pure_eq_ok] at hinit
    obtain ⟨_, -, _, -, _, -, _, -, _, -, _, -, rfl⟩ := hinit
    exact .nil
  · rintro w ⟨ctx, a, r⟩ w' hw hsorted hstep
    obtain ⟨hinv, hopen⟩ := reachable_inv hw
    cases exec_records hinv hopen hstep with
    | Leave _ hrecords => rwa [hrecords]
    | Settle _ hrecords hindex =>
        rw [hrecords, List.pairwise_append]
        refine ⟨hsorted, List.pairwise_singleton _ _, fun a ha b hb => ?_⟩
        rw [List.mem_singleton.mp hb, hindex]
        exact hinv.waln.records_lt a ha
    | Close _ _ hrecords =>
        rw [hrecords]
        exact hsorted.filter _

lemma Reachable.records_nodup (h : Reachable env w) : NodupKeys recordIndex w.roundRecords :=
  List.pairwise_map.mpr (h.records_sorted.imp Nat.ne_of_lt)

/-! ## The archive -/

/-- The transactions that close the record of round `i`. -/
def closings (i : ℕ) (h : List (Transition.Entry World Tx)) : List (Transition.Entry World Tx) :=
  h.filter fun e => e.label.instr.closesRecord = some i

lemma closings_cons_of_ne {e : Transition.Entry World Tx} {h : List (Transition.Entry World Tx)}
    (he : e.label.instr.closesRecord ≠ some i) : closings i (e :: h) = closings i h :=
  List.filter_cons_of_neg (by simpa using he)

lemma closings_cons_self {e : Transition.Entry World Tx} {h : List (Transition.Entry World Tx)}
    (he : e.label.instr.closesRecord = some i) : closings i (e :: h) = e :: closings i h :=
  List.filter_cons_of_pos (by simpa using he)

/-- The transaction settled round `i` and wrote `record`. -/
structure Wrote (i : ℕ) (e : Transition.Entry World Tx) (record : Account RoundRecord) : Prop where
  pre : e.pre.state.roundCount = i
  post : e.post.state.roundCount = i + 1
  records : e.post.roundRecords = e.pre.roundRecords ++ [record]
  index : recordIndex record = i
  triggeredAt : record.data.triggeredAt = e.label.ctx.now

/-- The admin closed `record`, the record of round `i`, and the treasury got its lamports. -/
structure Reclaimed (i : ℕ) (e : Transition.Entry World Tx) (record : Account RoundRecord) :
    Prop where
  admin : e.pre.state.admin = e.label.ctx.signer
  found : lookup recordIndex i e.pre.roundRecords = some record
  treasury : e.post.treasury = e.pre.treasury + record.lamports

/-- The record of round `i`, from the settlement on: it is still there as it was written, or one
transaction closed it and it is gone. -/
def Archived (i : ℕ) (h : List (Transition.Entry World Tx)) (w : World) : Prop :=
  ∃ later e earlier record, h = later ++ e :: earlier ∧ Wrote i e record ∧
    ((closings i later = [] ∧ lookup recordIndex i w.roundRecords = some record) ∨
      (∃ x, closings i later = [x] ∧ Reclaimed i x record) ∧
        lookup recordIndex i w.roundRecords = none)

/-- A transaction that does not close the record of an archived round keeps the archive. -/
lemma Archived.cons {h : List (Transition.Entry World Tx)} {tx : Tx} (ha : Archived i h w)
    (htx : tx.instr.closesRecord ≠ some i)
    (hlookup : lookup recordIndex i w'.roundRecords = lookup recordIndex i w.roundRecords) :
    Archived i (⟨w, tx, w'⟩ :: h) w' := by
  obtain ⟨later, e, earlier, record, rfl, hwrote, hrest⟩ := ha
  refine ⟨⟨w, tx, w'⟩ :: later, e, earlier, record, rfl, hwrote, ?_⟩
  rw [closings_cons_of_ne htx, hlookup]
  exact hrest

/-- The step of `round_archive` for a round that was already settled. -/
lemma RecordStep.archived {h : List (Transition.Entry World Tx)} {tx : Tx} (ha : Archived i h w)
    (hi : i < w.state.roundCount) (hs : RecordStep w tx.ctx tx.instr w') :
    Archived i (⟨w, tx, w'⟩ :: h) w' := by
  obtain ⟨ctx, a, r⟩ := tx
  cases hs with
  | Leave hnone hrecords =>
      have hnone : a.closesRecord = none := hnone
      exact ha.cons (by simp [hnone]) (by rw [hrecords])
  | Settle hnone hrecords hindex =>
      have hnone : a.closesRecord = none := hnone
      refine ha.cons (by simp [hnone]) ?_
      rw [hrecords, lookup_append_of_ne]
      omega
  | @Close j _ record hadmin hfound hrecords htreasury =>
      by_cases hj : j.toNat = i
      · subst hj
        obtain ⟨later, e, earlier, record', rfl, hwrote, hrest⟩ := ha
        refine ⟨⟨w, ⟨ctx, .CloseRoundRecord j, r⟩, w'⟩ :: later, e, earlier, record', rfl, hwrote,
          .inr ⟨⟨⟨w, ⟨ctx, .CloseRoundRecord j, r⟩, w'⟩, ?_⟩, ?_⟩⟩
        · rcases hrest with ⟨hopen, hsome⟩ | ⟨-, hnone⟩
          · obtain rfl := Option.some.inj (hsome.symm.trans hfound)
            refine ⟨?_, hadmin, hfound, htreasury⟩
            exact (closings_cons_self rfl).trans (congrArg _ hopen)
          · rw [hnone] at hfound
            cases hfound
        · rw [hrecords]
          exact lookup_filter_self
      · refine ha.cons (fun heq => hj (Option.some.inj heq)) ?_
        rw [hrecords]
        exact lookup_filter_of_ne hj

/-- **The archive.**  In every run, every settled round has the record its settlement wrote, field
by field, unless the admin closed that record; it was closed once, its rent went to the treasury,
and it did not come back. -/
theorem round_archive {h : List (Transition.Entry World Tx)} (hinit : Initial env w₀)
    (hrun : History env w₀ h w) (hi : i < w.state.roundCount) : Archived i h w := by
  have hzero : w₀.state.roundCount = 0 := by
    obtain ⟨_, _, _, _, _, _, hw₀⟩ := hinit
    simp only [initializeHandler, bind_eq_ok, pure_eq_ok] at hw₀
    obtain ⟨_, -, _, -, _, -, _, -, _, -, _, -, rfl⟩ := hw₀
    rfl
  induction hrun with
  | nil => omega
  | @cons w w' tx h htrace hstep ih =>
      obtain ⟨hinv, hopen⟩ := reachable_inv (History.reachable htrace hinit)
      obtain ⟨ctx, a, r⟩ := tx
      have hs := exec_records hinv hopen hstep
      by_cases hlt : i < w.state.roundCount
      · exact hs.archived (ih hlt) hlt
      · cases hs with
        | Leave _ _ hcount => omega
        | Close _ _ _ _ _ hstate => rw [hstate] at hi; exact absurd hi hlt
        | @Settle _ _ record _ hrecords hindex hnow hcount =>
            have hpre : w.state.roundCount = i := by omega
            refine ⟨[], ⟨w, ⟨ctx, a, r⟩, w'⟩, h, record, rfl,
              ⟨hpre, hcount.trans (by rw [hpre]), hrecords, hindex.trans hpre, hnow⟩,
              .inl ⟨rfl, ?_⟩⟩
            rw [hrecords, ← hpre]
            exact lookup_append_self hindex hinv.accounts_free.2

/-- Two full rounds, of which the record of the first is closed. -/
def firstRecordClosed : List (Context × Instruction) :=
  threeInvestors 100000 5000000000 ++ [sell 0 2000000000, sell 1 2000000000,
    (signedBy 1 300 [], .CloseRoundRecord 0)]

theorem round_archive_two_rounds :
    ∃ w₀ h w, Initial (sampleEnv 9) w₀ ∧ History (sampleEnv 9) w₀ h w ∧
      w.roundRecords.map recordIndex = [1] ∧ Archived 0 h w ∧ Archived 1 h w := by
  obtain ⟨w₀, h, w, hinit, hrun, hcheck⟩ := exists_sample_history 9 1000000000 2000000000
    firstRecordClosed
    (fun _ _ w => decide (w.state.roundCount = 2 ∧ w.roundRecords.map recordIndex = [1]))
    (by decide +kernel)
  obtain ⟨hcount, hrecords⟩ := of_decide_eq_true hcheck
  exact ⟨w₀, h, w, hinit, hrun, hrecords, round_archive hinit hrun (by omega),
    round_archive hinit hrun (by omega)⟩

end Floor
