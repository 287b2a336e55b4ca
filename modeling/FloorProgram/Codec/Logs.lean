import FloorProgram.Codec.ZeroCopy
import FloorProgram.Rounds.Events

/-!
# The event logs

A sell that fills a round logs one `InvestorAllocated` for every entry and one `RoundClosed`.  The
first are not written by Anchor: `sell_waln.rs` packs the seventy-two bytes of each by hand.  A
client that knows the discriminators and the fields of the two events reads all of them back.

* `allocatedLog_eq` — what is packed by hand is what Anchor would have written.
* `Announces` — what the events of a settlement say about the accounts it writes.
* `round_logs` — an indexer that reads the logs of a whole run has, for every round, the events of
  the transaction that filled it and nothing else, and these announce the accounts of the round.
-/

namespace Floor

open Checked Loop Keyed Bytes

variable {env : Env} {w w' : World} {i : ℕ}

/-! ## Writing -/

/-- The discriminators of the two events. -/
structure EventDiscriminators where
  allocated : Discriminator
  closed : Discriminator
  ne : allocated ≠ closed

/-- The buffer of one `InvestorAllocated`, filled by hand. -/
def allocatedLog (disc : Discriminator) (e : InvestorAllocated) : List UInt8 :=
  copyFromSlice 64 (leIntBytes 8 e.unlock) <|
  copyFromSlice 56 (leBytes 8 e.usdcSpent) <|
  copyFromSlice 48 (leBytes 8 e.walnAmount) <|
  copyFromSlice 16 (beBytes 32 e.investor) <|
  copyFromSlice 8 (leBytes 8 e.roundIndex) <|
  copyFromSlice 0 disc.toList <|
  List.replicate (8 + 8 + 32 + 8 + 8 + 8) 0

section Structures

open Layout Layouts

/-- The fields of `InvestorAllocated`. -/
def allocatedLayout : Layout InvestorAllocated :=
  (u64.seq (key.seq (u64.seq (u64.seq i64)))).via
    (fun e => (e.roundIndex, e.investor, e.walnAmount, e.usdcSpent, e.unlock))
    (fun (roundIndex, investor, walnAmount, usdcSpent, unlock) =>
      { roundIndex, investor, walnAmount, usdcSpent, unlock })
    fun _ => rfl

/-- The fields of `RoundClosed`. -/
def closedLayout : Layout RoundClosed :=
  (u64.seq (u64.seq (u64.seq (u32.seq i64)))).via
    (fun e => (e.roundIndex, e.walnPurchased, e.usdcSpent, e.participantCount, e.unlock))
    (fun (roundIndex, walnPurchased, usdcSpent, participantCount, unlock) =>
      { roundIndex, walnPurchased, usdcSpent, participantCount, unlock })
    fun _ => rfl

end Structures

/-- `emit!(RoundClosed { .. })`. -/
def closedLog (disc : Discriminator) (e : RoundClosed) : List UInt8 :=
  accountBytes disc closedLayout e

/-- The logs of a transaction. -/
def Receipt.logs (d : EventDiscriminators) (r : Receipt) : List (List UInt8) :=
  r.allocated.map (allocatedLog d.allocated) ++ r.roundClosed.toList.map (closedLog d.closed)

/-- **The buffer packed by hand** is the discriminator and the fields, without a gap. -/
lemma allocatedLog_eq (disc : Discriminator) (e : InvestorAllocated) :
    allocatedLog disc e = accountBytes disc allocatedLayout e := by
  have hfill := @fill_eq_flatten [disc.toList, leBytes 8 e.roundIndex, beBytes 32 e.investor,
    leBytes 8 e.walnAmount, leBytes 8 e.usdcSpent, leIntBytes 8 e.unlock]
    (List.replicate (8 + 8 + 32 + 8 + 8 + 8) 0) (by simp)
  simp only [fill, Vector.length_toList, length_leBytes, length_beBytes] at hfill
  exact hfill.trans (by simp [accountBytes, allocatedLayout, Layout.via, Layout.seq, Layouts.u64,
    Layouts.key, Layouts.i64, Layout.num, Layout.big, Layout.int])

/-! ## Reading -/

/-- An event of the program. -/
inductive Event
  | Allocated (e : InvestorAllocated)
  | Closed (e : RoundClosed)

def Event.roundIndex : Event → ℕ
  | .Allocated e => e.roundIndex
  | .Closed e => e.roundIndex

/-- The event in a log: the discriminator tells which one it is. -/
def decodeEvent (d : EventDiscriminators) (log : List UInt8) : Option Event :=
  if log.take 8 = d.allocated.toList then
    (readBuffer allocatedLayout.read allocatedLayout.size log 8).toOption.map .Allocated
  else if log.take 8 = d.closed.toList then
    (readBuffer closedLayout.read closedLayout.size log 8).toOption.map .Closed
  else none

/-- The events of a transaction. -/
def Receipt.events (r : Receipt) : List Event :=
  r.allocated.map .Allocated ++ r.roundClosed.toList.map .Closed

/-- The events of a transaction fit the types of their fields. -/
structure Receipt.EventsFit (r : Receipt) : Prop where
  allocated : ∀ e ∈ r.allocated, allocatedLayout.Fits e
  closed : ∀ e ∈ r.roundClosed, closedLayout.Fits e

/-- **What is logged is read back.** -/
lemma Receipt.decode_logs {d : EventDiscriminators} {r : Receipt} (h : r.EventsFit) :
    (r.logs d).map (decodeEvent d) = r.events.map some := by
  have hne : d.closed.toList ≠ d.allocated.toList :=
    fun heq => d.ne (Vector.toList_inj.mp heq).symm
  rw [Receipt.logs, Receipt.events, List.map_append, List.map_append, List.map_map, List.map_map,
    List.map_map, List.map_map]
  congr 1
  · refine List.map_congr_left fun e he => ?_
    simp only [Function.comp_apply, decodeEvent, allocatedLog_eq, accountBytes_take, if_true,
      readBuffer_accountBytes (h.allocated e he)]
    rfl
  · refine List.map_congr_left fun e he => ?_
    simp only [Function.comp_apply, decodeEvent, closedLog, accountBytes_take, if_neg hne, if_true,
      readBuffer_accountBytes (h.closed e (Option.mem_toList.mp he))]
    rfl

/-! ## The events of a settlement -/

/-- The events of a transaction announce the accounts of round `i`: one `InvestorAllocated` for each
entry, in their order, and one `RoundClosed` with the figures of the record. -/
structure Announces (i : ℕ) (r : Receipt) (rlw : RoundLockedWaln) (record : RoundRecord) :
    Prop where
  closed : r.roundClosed = some { roundIndex := i, walnPurchased := record.walnPurchased,
                                  usdcSpent := record.usdcSpent,
                                  participantCount := record.participantCount,
                                  unlock := rlw.unlock }
  entries : (r.allocated.map fun e => (⟨e.investor, e.walnAmount⟩ : InvestorAlloc)) = rlw.investors
  index : ∀ e ∈ r.allocated, e.roundIndex = i
  unlock : ∀ e ∈ r.allocated, e.unlock = rlw.unlock
  spent : ∀ e ∈ r.allocated, U64 e.usdcSpent

section Announces

variable {r : Receipt} {rlw : RoundLockedWaln} {record : RoundRecord}

lemma Announces.eventsFit (ha : Announces i r rlw record) (hi : U64 i) (hrlw : rlw.Fits)
    (hrecord : record.Fits) : r.EventsFit := by
  refine ⟨fun e he => ?_, fun e he => ?_⟩
  · have hentry : (⟨e.investor, e.walnAmount⟩ : InvestorAlloc) ∈ rlw.investors := by
      rw [← ha.entries]
      exact List.mem_map_of_mem (f := fun e => (⟨e.investor, e.walnAmount⟩ : InvestorAlloc)) he
    have hindex : U64 e.roundIndex := (ha.index e he).symm ▸ hi
    have hunlock : I64 e.unlock := (ha.unlock e he).symm ▸ hrlw.unlock
    exact ⟨hindex, e.investor.isLt, hrlw.walnAmount _ hentry, ha.spent e he, I64.layout hunlock⟩
  · obtain rfl := Option.some.inj (ha.closed.symm.trans he)
    exact ⟨hi, hrecord.walnPurchased, hrecord.usdcSpent, hrecord.participantCount,
      I64.layout hrlw.unlock⟩

lemma Announces.roundIndex (ha : Announces i r rlw record) : ∀ e ∈ r.events, e.roundIndex = i := by
  intro e he
  rw [Receipt.events, List.mem_append, List.mem_map, List.mem_map] at he
  rcases he with ⟨e, he, rfl⟩ | ⟨e, he, rfl⟩
  · exact ha.index e he
  · obtain rfl := Option.some.inj (ha.closed.symm.trans (Option.mem_toList.mp he))
    rfl

end Announces

/-- What a transaction logs.  A settlement by force is silent; the one by a sell announces the
accounts it has written. -/
inductive LogStep (w : World) (a : Instruction) (r : Receipt) (w' : World) : Prop
  | Quiet (hnone : r.events = []) (hcount : w'.state.roundCount = w.state.roundCount)
  | Forced (ha : a = .CloseRound) (hnone : r.events = [])
      (hcount : w'.state.roundCount = w.state.roundCount + 1)
  | Full {account : Account RoundLockedWaln} {record : Account RoundRecord}
      (haccount : lookup lockedIndex w.state.roundCount w'.roundLockedWaln = some account)
      (hrecord : lookup recordIndex w.state.roundCount w'.roundRecords = some record)
      (ha : Announces w.state.roundCount r account.data record.data)
      (hcount : w'.state.roundCount = w.state.roundCount + 1)

lemma exec_logs {ctx : Context} {a : Instruction} {r : Receipt} (hw : Reachable env w)
    (hx : exec env ctx a w = .ok (w', r)) : LogStep w a r w' := by
  obtain ⟨hinv, hopen⟩ := reachable_inv hw
  cases exec_effect hinv hopen hx with
  | Close _ _ hsettled => exact .Forced rfl rfl (by rw [hsettled.state])
  | Sell hopened hpaid => exact .Quiet rfl ((hopened.keeps hinv).trans hpaid.keeps).roundCount
  | SellFull hopened hpaid _ hsettled hallocated hnext =>
      have hs := settles_of_fill hinv hopen hopened hpaid hsettled hnext
      obtain ⟨account, -, haccount, -, hunlock, hentries⟩ := hs.found hinv
      obtain ⟨_, _, hrecords⟩ := hs.record
      have hevents := eq_map_of_mapM (fun _ _ => allocatedEvent_ok) hallocated
      refine .Full haccount (hrecords ▸ lookup_append_self rfl hinv.accounts_free.2) ?_
        hs.roundCount
      refine ⟨by rw [hs.before.roundCount, hunlock], ?_, ?_, ?_, ?_⟩
      · rw [hevents, hentries, List.map_map]
        exact List.map_id _
      all_goals intro e he
      · obtain ⟨_, -, rfl⟩ := List.mem_map.mp (hevents ▸ he)
        exact hs.before.roundCount
      · obtain ⟨_, -, rfl⟩ := List.mem_map.mp (hevents ▸ he)
        exact hunlock.symm
      · obtain ⟨b, -, hb⟩ := exists_of_mem_mapM hallocated he
        simp only [allocatedEvent, bind_eq_ok, mulDivU64_eq_ok, pure_eq_ok] at hb
        obtain ⟨_, ⟨-, -, hlt, rfl⟩, rfl⟩ := hb
        exact hlt
  | _ => exact .Quiet rfl rfl

/-! ## Runs -/

/-- The logs of a run, oldest first. -/
def runLogs (d : EventDiscriminators) (h : List (Transition.Entry World Tx)) : List (List UInt8) :=
  h.reverse.flatMap fun e => e.label.receipt.logs d

/-- What an indexer has of round `i`: the events of that round among all it can read. -/
def indexed (d : EventDiscriminators) (i : ℕ) (h : List (Transition.Entry World Tx)) : List Event :=
  ((runLogs d h).filterMap (decodeEvent d)).filter fun e => e.roundIndex = i

/-- What an indexer has of a settled round is what the transaction that settled it has logged:
nothing if that was a forced close, and otherwise the announcement of the accounts it has written.
-/
def Reported (d : EventDiscriminators) (i : ℕ) (h : List (Transition.Entry World Tx)) : Prop :=
  ∃ e ∈ h, e.pre.state.roundCount = i ∧ e.post.state.roundCount = i + 1 ∧
    indexed d i h = e.label.receipt.events ∧
    ((e.label.instr = .CloseRound ∧ e.label.receipt.events = []) ∨
      ∃ account record, lookup lockedIndex i e.post.roundLockedWaln = some account ∧
        lookup recordIndex i e.post.roundRecords = some record ∧
        Announces i e.label.receipt account.data record.data)

/-- What an indexer has of a run. -/
structure Indexed (d : EventDiscriminators) (h : List (Transition.Entry World Tx)) (w : World) :
    Prop where
  readable : ∀ log ∈ runLogs d h, (decodeEvent d log).isSome = true
  settled : ∀ i, i < w.state.roundCount → Reported d i h
  unsettled : ∀ i, w.state.roundCount ≤ i → indexed d i h = []

section Cons

variable {d : EventDiscriminators} {h : List (Transition.Entry World Tx)}
  {e : Transition.Entry World Tx}

lemma runLogs_cons : runLogs d (e :: h) = runLogs d h ++ e.label.receipt.logs d := by
  simp [runLogs]

lemma indexed_cons (hfit : e.label.receipt.EventsFit) :
    indexed d i (e :: h)
      = indexed d i h ++ e.label.receipt.events.filter fun x => x.roundIndex = i := by
  have hdecode : (e.label.receipt.logs d).filterMap (decodeEvent d) = e.label.receipt.events := by
    have hid := congrArg (List.filterMap id) (Receipt.decode_logs (d := d) hfit)
    rwa [List.filterMap_map, List.filterMap_map, Function.id_comp, Function.id_comp,
      List.filterMap_some] at hid
  rw [indexed, indexed, runLogs_cons, List.filterMap_append, List.filter_append, hdecode]

lemma isSome_decode_logs (hfit : e.label.receipt.EventsFit) :
    ∀ log ∈ e.label.receipt.logs d, (decodeEvent d log).isSome = true := by
  intro log hlog
  have hmem := List.mem_map_of_mem (f := decodeEvent d) hlog
  rw [Receipt.decode_logs hfit, List.mem_map] at hmem
  obtain ⟨x, -, hx⟩ := hmem
  rw [← hx]
  rfl

/-- A transaction that says nothing of a round leaves what an indexer has of it. -/
lemma indexed_cons_of_ne (hfit : e.label.receipt.EventsFit)
    (hne : ∀ x ∈ e.label.receipt.events, x.roundIndex ≠ i) :
    indexed d i (e :: h) = indexed d i h := by
  rw [indexed_cons hfit, List.filter_eq_nil_iff.mpr (by simpa using hne), List.append_nil]

lemma Reported.cons (hr : Reported d i h) (hfit : e.label.receipt.EventsFit)
    (hne : ∀ x ∈ e.label.receipt.events, x.roundIndex ≠ i) : Reported d i (e :: h) := by
  obtain ⟨e', he', hpre, hpost, hevents, hkind⟩ := hr
  exact ⟨e', List.mem_cons_of_mem _ he', hpre, hpost,
    (indexed_cons_of_ne hfit hne).trans hevents, hkind⟩

lemma Receipt.eventsFit_of_nil {r : Receipt} (h : r.events = []) : r.EventsFit := by
  rw [Receipt.events, List.append_eq_nil_iff, List.map_eq_nil_iff, List.map_eq_nil_iff,
    Option.toList_eq_nil_iff] at h
  exact ⟨by simp [h.1], by simp [h.2]⟩

/-- The events of a step fit, because the accounts they announce do. -/
lemma LogStep.eventsFit {a : Instruction} {r : Receipt} (hs : LogStep w a r w') (hw : w.Fits)
    (hw' : w'.Fits) : r.EventsFit := by
  cases hs with
  | Quiet hnone => exact Receipt.eventsFit_of_nil hnone
  | Forced _ hnone => exact Receipt.eventsFit_of_nil hnone
  | Full haccount hrecord ha =>
      exact ha.eventsFit hw.state.roundCount (hw'.roundLockedWaln _ (lookup_mem haccount))
        (hw'.roundRecords _ (lookup_mem hrecord))

/-- A step that settles round `i` reports it, if nothing was reported of it before. -/
lemma Reported.last {tx : Tx} (hfit : tx.receipt.EventsFit) (hbefore : indexed d i h = [])
    (hi : w.state.roundCount = i) (hcount : w'.state.roundCount = i + 1)
    (hall : ∀ x ∈ tx.receipt.events, x.roundIndex = i)
    (hkind : (tx.instr = .CloseRound ∧ tx.receipt.events = []) ∨
      ∃ account record, lookup lockedIndex i w'.roundLockedWaln = some account ∧
        lookup recordIndex i w'.roundRecords = some record ∧
        Announces i tx.receipt account.data record.data) :
    Reported d i (⟨w, tx, w'⟩ :: h) := by
  refine ⟨⟨w, tx, w'⟩, List.mem_cons_self, hi, hcount, ?_, hkind⟩
  rw [indexed_cons hfit, hbefore, List.nil_append, List.filter_eq_self.mpr (by simpa using hall)]

/-- **One more transaction.** -/
lemma Indexed.step {tx : Tx} (hd : Indexed d h w) (hs : LogStep w tx.instr tx.receipt w')
    (hfit : tx.receipt.EventsFit) : Indexed d (⟨w, tx, w'⟩ :: h) w' := by
  have hreadable : ∀ log ∈ runLogs d (⟨w, tx, w'⟩ :: h), (decodeEvent d log).isSome = true := by
    intro log hlog
    rw [runLogs_cons, List.mem_append] at hlog
    exact hlog.elim (hd.readable log) (isSome_decode_logs hfit log)
  -- the events of the step are about the round that was in progress
  have hcurrent : ∀ x ∈ tx.receipt.events, x.roundIndex = w.state.roundCount := by
    cases hs with
    | Quiet hnone => simp [hnone]
    | Forced _ hnone => simp [hnone]
    | Full _ _ ha => exact ha.roundIndex
  have hother : ∀ j, j ≠ w.state.roundCount → ∀ x ∈ tx.receipt.events, x.roundIndex ≠ j :=
    fun j hj x hx => by rw [hcurrent x hx]; exact hj.symm
  have hbefore := hd.unsettled w.state.roundCount le_rfl
  have hgrown : w'.state.roundCount = w.state.roundCount + 1 →
      Reported d w.state.roundCount (⟨w, tx, w'⟩ :: h) →
      Indexed d (⟨w, tx, w'⟩ :: h) w' := by
    intro hcount hreported
    refine ⟨hreadable, fun j hj => ?_, fun j hj => ?_⟩
    · by_cases hlast : j = w.state.roundCount
      · exact hlast ▸ hreported
      · exact (hd.settled j (by omega)).cons hfit (hother j hlast)
    · rw [indexed_cons_of_ne hfit (hother j (by omega))]
      exact hd.unsettled j (by omega)
  cases hs with
  | Quiet hnone hcount =>
      have hsilent : ∀ j, ∀ x ∈ tx.receipt.events, x.roundIndex ≠ j := by simp [hnone]
      refine ⟨hreadable, fun j hj => ?_, fun j hj => ?_⟩
      · exact (hd.settled j (hcount ▸ hj)).cons hfit (hsilent j)
      · rw [indexed_cons_of_ne hfit (hsilent j)]
        exact hd.unsettled j (hcount ▸ hj)
  | Forced ha hnone hcount =>
      exact hgrown hcount (Reported.last hfit hbefore rfl hcount hcurrent (.inl ⟨ha, hnone⟩))
  | Full haccount hrecord ha hcount =>
      exact hgrown hcount (Reported.last hfit hbefore rfl hcount hcurrent
        (.inr ⟨_, _, haccount, hrecord, ha⟩))

end Cons

/-- **The logs of a run.**  In every run at times of the clock every log can be read, an indexer has
of every settled round exactly what the transaction that settled it has logged, and of no other
round anything.  A forced close logs nothing; a sell that fills a round announces its account, entry
by entry, and its record.  The logs are those the program writes: the runtime cuts the log of a
transaction off at a length, which is not modelled. -/
theorem round_logs {w₀ : World} {h : List (Transition.Entry World Tx)} (hw₀ : Initial env w₀)
    (hh : History env w₀ h w) (hnow : AtClockTimes h) (hbump : ∀ k, env.bump k < 2 ^ 8)
    (d : EventDiscriminators) : Indexed d h w := by
  induction hh with
  | nil =>
      have hzero : w₀.state.roundCount = 0 := by
        obtain ⟨_, _, _, _, _, _, hw₀⟩ := hw₀
        simp only [initializeHandler, bind_eq_ok, pure_eq_ok] at hw₀
        obtain ⟨_, -, _, -, _, -, _, -, _, -, _, -, rfl⟩ := hw₀
        rfl
      exact ⟨by simp [runLogs], fun i hi => by omega, fun _ _ => rfl⟩
  | @cons w w' tx h htrace hstep ih =>
      have hnow' : AtClockTimes h := fun e he => hnow e (List.mem_cons_of_mem _ he)
      have hs := exec_logs (History.reachable htrace hw₀) hstep
      have hfits := History.fits hw₀ htrace hbump hnow'
      have hfits' := History.fits hw₀ (htrace.cons hstep) hbump hnow
      exact (ih hnow').step hs (hs.eventsFit hfits hfits')

/-- Discriminators to try it with. -/
def sampleDiscriminators : EventDiscriminators :=
  ⟨Vector.replicate 8 1, Vector.replicate 8 2, by decide⟩

/-- A full round, and one that is closed half full. -/
def filledAndForced : List (Context × Instruction) :=
  threeInvestors 100000 5000000000 ++ [sell 0 2000000000, sell 1 1000000000,
    (signedBy 1 1 (roundAccounts 1), .CloseRound)]

/-- The first round logs four events, and the second none. -/
theorem round_logs_filled_and_forced :
    ∃ w₀ h w, Initial (sampleEnv 9) w₀ ∧ History (sampleEnv 9) w₀ h w ∧
      w.state.roundCount = 2 ∧ (indexed sampleDiscriminators 0 h).length = 4 ∧
      (indexed sampleDiscriminators 1 h).length = 0 ∧ Indexed sampleDiscriminators h w := by
  obtain ⟨w₀, h, w, hinit, hh, hw⟩ := exists_sample_history 9 1000000000 2000000000
    filledAndForced
    (fun _ h w => h.all (fun e => decide (I64 e.label.ctx.now)) &&
      decide (w.state.roundCount = 2 ∧ (indexed sampleDiscriminators 0 h).length = 4 ∧
        (indexed sampleDiscriminators 1 h).length = 0))
    (by decide +kernel)
  simp only [Bool.and_eq_true, List.all_eq_true, decide_eq_true_eq] at hw
  obtain ⟨hnow, hcount, hfilled, hforced⟩ := hw
  exact ⟨w₀, h, w, hinit, hh, hcount, hfilled, hforced,
    round_logs hinit hh hnow (fun _ => show (255 : ℕ) < 2 ^ 8 by decide) sampleDiscriminators⟩

end Floor
