import FloorProgram.Core.Lockstep
import FloorProgram.Core.Slots
import FloorProgram.Pool.FiniteMap
import FloorProgram.Settling

/-!
# The pool as its account holds it

`InvestorPool` is an array of `MAX_INVESTORS` records with a count.  The rest of the development
keeps the records in use in a list.  Here the program runs on the array: `deposit_usdc` takes the
next free slot, `remove_investor_from_pool` moves the last record into the slot it frees and zeroes
the last one, `withdraw_usdc`, `set_investor_usdc_unlock` and `update_aat_volume` write to the slot
they find, and `cancel_round` goes through the slots in use.  The start of a round and the two
settlements get the slice `investors[..count]`, which is written back as a whole.

* `execSlots` — the program on the array.
* `map_execSlots` — it does what the program on the list does, errors included.
* `slots_refine` — over whole runs: the worlds are the same, the slots behind the count are zero,
  and the array is determined by the list.
-/

namespace Floor

open Checked Keyed Loop

variable {env : Env} {w w' : World} {ctx : Context} {r : Receipt}

/-- The pool account. -/
abbrev PoolAccount := Slots InvestorRecord MAX_INVESTORS

/-- The record of zeros that fills the slots that are not in use. -/
def InvestorRecord.blank : InvestorRecord := InvestorRecord.empty 0

/-- A world with the pool as its account holds it. -/
structure SlotWorld where
  state : ProgramState
  pool : PoolAccount
  usdcVault : ℕ
  walnVault : ℕ
  treasury : ℕ
  roundRecords : List (Account RoundRecord)
  roundLockedWaln : List (Account RoundLockedWaln)
  aatNfts : List AatNft

/-- The world with the records in use. -/
def SlotWorld.world (s : SlotWorld) : World :=
  { state := s.state, pool := { investors := s.pool.live }, usdcVault := s.usdcVault,
    walnVault := s.walnVault, treasury := s.treasury, roundRecords := s.roundRecords,
    roundLockedWaln := s.roundLockedWaln, aatNfts := s.aatNfts }

/-- A world with another account for its pool. -/
def World.withSlots (w : World) (pool : PoolAccount) : SlotWorld :=
  { state := w.state, pool := pool, usdcVault := w.usdcVault, walnVault := w.walnVault,
    treasury := w.treasury, roundRecords := w.roundRecords, roundLockedWaln := w.roundLockedWaln,
    aatNfts := w.aatNfts }

lemma world_withSlots (w : World) (pool : PoolAccount) :
    (w.withSlots pool).world = { w with pool := { investors := pool.live } } := rfl

lemma world_withSlots_of_live {pool : PoolAccount} (h : pool.live = w.pool.investors) :
    (w.withSlots pool).world = w := by
  rw [world_withSlots, h]

/-! ## The handlers that write to slots -/

/-- `investors[..count].iter_mut().find(..)`: the slot of the investor, and its record. -/
def findSlot (investor : Pubkey) (pool : PoolAccount) : Option (ℕ × InvestorRecord) := do
  let idx ← position byInvestor investor pool.live
  let record ← pool.items[idx]?
  return (idx, record)

/-- The slot of the investor; if it has none, the next free one, with an empty record in it. -/
def findOrInsert (investor : Pubkey) (pool : PoolAccount) : Except TxError (ℕ × PoolAccount) :=
  match position byInvestor investor pool.live with
  | some idx => .ok (idx, pool)
  | none => do
    let pool' ← okOr .Panicked (pool.push (InvestorRecord.empty investor))
    return (pool.count, pool')

/-- Credit the deposit in the slot of the investor. -/
def depositIntoSlots (now withdrawLockSeconds : ℤ) (investor : Pubkey) (aatVolume usdcAmount : ℕ)
    (pool : PoolAccount) : Except TxError PoolAccount := do
  let (idx, pool) ← findOrInsert investor pool
  let record ← okOr .Panicked pool.items[idx]?
  let record' ← creditDeposit now withdrawLockSeconds aatVolume usdcAmount record
  return pool.set idx record'

/-- `deposit_usdc`. -/
def depositUsdcSlots (ctx : Context) (usdcMint : Pubkey) (aatNft : AccountKey) (usdcAmount : ℕ)
    (s : SlotWorld) : Except TxError (SlotWorld × Receipt) := do
  associatedAatAccount ctx aatNft (lookup nftHolder ctx.signer s.aatNfts).isSome
  ensure (s.state.frozen = false) .ContractFrozen
  ensure (0 < usdcAmount) .ZeroAmount
  ensure (usdcMint = s.state.usdcMint) .InvalidMint
  let nft ← verifyAatNftAndGetAllocation s.aatNfts aatNft ctx.signer
  ensure (0 < nft.aatVolume) .ZeroAatAllocation
  ensure (nft.amount = 1) .NoAatNft
  ensure (s.pool.count < MAX_INVESTORS ∨
    (lookup byInvestor ctx.signer s.pool.live).isSome = true) .InvestorPoolFull
  let usdcVault ← transferIn ctx s.usdcVault usdcAmount
  let pool ← depositIntoSlots ctx.now s.state.usdcWithdrawLockSeconds ctx.signer nft.aatVolume
    usdcAmount s.pool
  let lobby ← arith (checkedAdd 64 s.state.totalUsdcInLobby usdcAmount)
  return ({ s with
      state := { s.state with totalUsdcInLobby := lobby }
      pool := pool
      usdcVault := usdcVault },
    { usdcIn := usdcAmount })

/-- Free the slot of the investor, found again by key. -/
def freeSlot (investor : Pubkey) (pool : PoolAccount) : Except TxError PoolAccount := do
  let idx ← okOr (.Program .InvalidInvestor) (position byInvestor investor pool.live)
  okOr .Panicked (pool.remove .blank idx)

/-- `remove_investor_from_pool`. -/
def removeInvestorFromPoolSlots (ctx : Context) (investor usdcMint : Pubkey) (s : SlotWorld) :
    Except TxError (SlotWorld × Receipt) := do
  adminOnly ctx s.state
  ensure (usdcMint = s.state.usdcMint) .InvalidMint
  let idx ← okOr (.Program .InvalidInvestor) (position byInvestor investor s.pool.live)
  let record ← okOr .Panicked s.pool.items[idx]?
  ensure (record.aatVolume = 0 ∧ record.usdcLockedCurrentRound = 0) .InvestorNotInactive
  let (usdcVault, lobby) ← payRefund ctx s.usdcVault s.state.totalUsdcInLobby record.usdcDeposited
  let pool ← freeSlot investor s.pool
  return ({ s with
      state := { s.state with totalUsdcInLobby := lobby }
      pool := pool
      usdcVault := usdcVault },
    { usdcOut := record.usdcDeposited })

/-- `withdraw_usdc`. -/
def withdrawUsdcSlots (ctx : Context) (usdcMint : Pubkey) (amount : ℕ) (s : SlotWorld) :
    Except TxError (SlotWorld × Receipt) := do
  ensure (s.state.frozen = false) .ContractFrozen
  ensure (usdcMint = s.state.usdcMint) .InvalidMint
  let (idx, record) ← okOr (.Program .InvalidInvestor) (findSlot ctx.signer s.pool)
  ensure (record.usdcUnlockTs ≤ ctx.now) .UsdcLocked
  let withdrawAmount := if amount = U64_MAX then record.usdcDeposited else amount
  ensure (0 < withdrawAmount) .ZeroAmount
  ensure (withdrawAmount ≤ record.usdcDeposited) .InsufficientFunds
  let deposited ← arith (checkedSub record.usdcDeposited withdrawAmount)
  let usdcVault ← transferOut ctx s.usdcVault withdrawAmount
  let lobby ← arith (checkedSub s.state.totalUsdcInLobby withdrawAmount)
  return ({ s with
      state := { s.state with totalUsdcInLobby := lobby }
      pool := s.pool.set idx { record with usdcDeposited := deposited }
      usdcVault := usdcVault },
    { usdcOut := withdrawAmount })

/-- `set_investor_usdc_unlock`. -/
def setInvestorUsdcUnlockSlots (ctx : Context) (investor : Pubkey) (newUnlockTs : ℤ)
    (s : SlotWorld) : Except TxError (SlotWorld × Receipt) := do
  adminOnly ctx s.state
  let (idx, record) ← okOr (.Program .InvalidInvestor) (findSlot investor s.pool)
  return ({ s with pool := s.pool.set idx { record with usdcUnlockTs := newUnlockTs } }, {})

/-- `update_aat_volume`. -/
def updateAatVolumeSlots (ctx : Context) (investor : Pubkey) (newVolume : ℕ) (s : SlotWorld) :
    Except TxError (SlotWorld × Receipt) := do
  adminOnly ctx s.state
  ensure (s.state.roundStarted = false) .FundsLocked
  let nft ← verifyAatNftAndGetAllocation s.aatNfts (.AatNft investor) investor
  let rest ← arith (checkedSub s.state.totalAatVolume nft.aatVolume)
  let newTotal ← arith (checkedAdd 64 rest newVolume)
  ensure (newTotal ≤ MAX_TOTAL_AAT_VOLUME) .WalnAllocationLimitExceeded
  require (ctx.cpiAccepts = true) .TokenProgram
  let aatNfts := modifyFirst nftHolder investor (fun n => { n with aatVolume := newVolume })
    s.aatNfts
  let pool := match findSlot investor s.pool with
    | some (idx, record) => s.pool.set idx { record with aatVolume := newVolume }
    | none => s.pool
  return ({ s with
      state := { s.state with totalAatVolume := newTotal }
      aatNfts := aatNfts
      pool := pool },
    {})

/-- `cancel_round`. -/
def cancelRoundSlots (ctx : Context) (s : SlotWorld) : Except TxError (SlotWorld × Receipt) := do
  adminOnly ctx s.state
  ensure (s.state.roundStarted = true) .InvalidParameter
  ensure (s.state.currentRoundWaln = 0) .InvalidParameter
  let (pool, _) ← s.pool.forLive unlockRecord ()
  return ({ s with
    state := { s.state with
      roundStarted := false
      currentRoundWaln := 0
      currentRoundUsdcSpent := 0
      totalUsdcLockedForRound := 0 }
    pool := pool }, {})

/-- Execute one instruction on the array. -/
def execSlots (env : Env) (ctx : Context) (i : Instruction) (s : SlotWorld) :
    Except TxError (SlotWorld × Receipt) :=
  match i with
  | .DepositUsdc m n a => depositUsdcSlots ctx m n a.toNat s
  | .RemoveInvestorFromPool k m => removeInvestorFromPoolSlots ctx k m s
  | .WithdrawUsdc m a => withdrawUsdcSlots ctx m a.toNat s
  | .SetInvestorUsdcUnlock k t => setInvestorUsdcUnlockSlots ctx k t.toInt s
  | .UpdateAatVolume k v => updateAatVolumeSlots ctx k v.toNat s
  | .CancelRound => cancelRoundSlots ctx s
  | i => do
    let (w, r) ← exec env ctx i s.world
    return (w.withSlots (s.pool.overwrite w.pool.investors), r)

/-! ## The slots and the list -/

variable {s s' : SlotWorld} {pool pool' : PoolAccount} {k : Pubkey}

/-- The outcome of an instruction, with the records in use. -/
def slotOutcome (p : SlotWorld × Receipt) : World × Receipt := (p.1.world, p.2)

lemma position_eq_none {l : List InvestorRecord} :
    position byInvestor k l = none ↔ lookup byInvestor k l = none := by
  simp [position, lookup]

/-- Crediting the found slot, or the inserted one. -/
lemma findOrInsert_spec (h : pool.count < MAX_INVESTORS ∨
      (lookup byInvestor k pool.live).isSome = true) :
    ∃ idx pool', findOrInsert k pool = .ok (idx, pool') ∧ idx < pool'.count ∧
      (pool.Tidy .blank → pool'.Tidy .blank) ∧
      ((∃ x, lookup byInvestor k pool.live = some x ∧ pool' = pool ∧ pool.live[idx]? = some x) ∨
        (lookup byInvestor k pool.live = none ∧ idx = pool.count ∧
          pool'.live = pool.live ++ [InvestorRecord.empty k])) := by
  cases hpos : position byInvestor k pool.live with
  | some idx =>
      obtain ⟨hi, -, hlookup⟩ := position_eq_some hpos
      refine ⟨idx, pool, by simp [findOrInsert, hpos], by simpa using hi, id,
        .inl ⟨_, hlookup, rfl, List.getElem?_eq_getElem hi⟩⟩
  | none =>
      have hnone := position_eq_none.mp hpos
      have hn : pool.count < MAX_INVESTORS := h.resolve_right (by simp [hnone])
      obtain ⟨pool', hpush⟩ := Slots.push_eq_some (a := InvestorRecord.empty k) hn
      have hlive := Slots.live_push hpush
      have hcount := congrArg List.length hlive
      simp only [Slots.length_live, List.length_append, List.length_singleton] at hcount
      refine ⟨pool.count, pool', ?_, by omega, fun ht => ht.push hpush, .inr ⟨hnone, rfl, hlive⟩⟩
      simp only [findOrInsert, hpos, hpush]
      rfl

/-- **A deposit into the slots** is a deposit into the list. -/
lemma map_depositIntoSlots {now lock : ℤ} {v a : ℕ} (hkeys : NodupKeys byInvestor pool.live)
    (h : pool.count < MAX_INVESTORS ∨ (lookup byInvestor k pool.live).isSome = true) :
    Slots.live <$> depositIntoSlots now lock k v a pool = depositInto now lock k v a pool.live := by
  obtain ⟨idx, pool', hfind, hidx, -, ⟨x, hlookup, rfl, hx⟩ | ⟨hnone, rfl, hlive⟩⟩ :=
    findOrInsert_spec h
  · have hitem : pool'.items[idx]? = some x := (Slots.getElem?_items hidx).trans hx
    have hkey : byInvestor x = k := lookup_key hlookup
    simp only [depositIntoSlots, hfind, ok_bind, hitem, okOr, map_bind, map_pure, depositInto,
      hlookup, Slots.live_set]
    refine bind_congr fun x' => ?_
    rw [← hkey, ← set_eq_modifyFirst (f := fun _ => x') hkeys hx]
  · have hitem : pool'.items[pool.count]? = some (InvestorRecord.empty k) := by
      rw [Slots.getElem?_items hidx, hlive, ← Slots.length_live, List.getElem?_concat_length]
    simp only [depositIntoSlots, hfind, ok_bind, hitem, okOr, map_bind, map_pure, depositInto,
      hnone, Slots.live_set, hlive]
    refine bind_congr fun x' => ?_
    rw [List.set_append_right _ _ (by simp), Slots.length_live, Nat.sub_self]
    rfl

lemma tidy_depositIntoSlots {now lock : ℤ} {v a : ℕ} (htidy : pool.Tidy .blank)
    (h : pool.count < MAX_INVESTORS ∨ (lookup byInvestor k pool.live).isSome = true)
    (hx : depositIntoSlots now lock k v a pool = .ok pool') : pool'.Tidy .blank := by
  obtain ⟨idx, pool₁, hfind, hidx, hkeep, -⟩ := findOrInsert_spec h
  simp only [depositIntoSlots, hfind, ok_bind, bind_eq_ok, pure_eq_ok] at hx
  obtain ⟨_, -, _, -, rfl⟩ := hx
  exact (hkeep htidy).set hidx

/-- Freeing a slot succeeds when there is one to free. -/
lemma freeSlot_spec {idx : ℕ} (hpos : position byInvestor k pool.live = some idx) :
    ∃ pool', freeSlot k pool = .ok pool' ∧ pool'.live = swapRemove idx pool.live ∧
      (pool.Tidy .blank → pool'.Tidy .blank) := by
  obtain ⟨hi, -⟩ := position_eq_some hpos
  rw [Slots.length_live] at hi
  obtain ⟨pool', hremove⟩ : ∃ pool', pool.remove .blank idx = some pool' := Slots.remove_eq_some hi
  refine ⟨pool', ?_, Slots.live_remove hi hremove, fun ht => ht.remove hi hremove⟩
  simp only [freeSlot, hpos, hremove, okOr, ok_bind]

/-- A slot that is found is in use. -/
lemma findSlot_lt {idx : ℕ} {x : InvestorRecord} (h : findSlot k pool = some (idx, x)) :
    idx < pool.count := by
  simp only [findSlot, Option.bind_eq_bind, Option.bind_eq_some_iff, Option.pure_def,
    Option.some.injEq, Prod.mk.injEq] at h
  obtain ⟨_, hpos, _, -, rfl, -⟩ := h
  obtain ⟨hi, -⟩ := position_eq_some hpos
  simpa using hi

/-- **The slot that is found** holds the record of the investor, and writing to it is rewriting the
record in the list. -/
lemma findSlot_spec (k : Pubkey) (hkeys : NodupKeys byInvestor pool.live) :
    (findSlot k pool = none ∧ lookup byInvestor k pool.live = none) ∨
    ∃ idx x, findSlot k pool = some (idx, x) ∧ lookup byInvestor k pool.live = some x ∧
      ∀ f : InvestorRecord → InvestorRecord,
        (pool.set idx (f x)).live = modifyFirst byInvestor k f pool.live := by
  cases hpos : position byInvestor k pool.live with
  | none => exact .inl ⟨by simp [findSlot, hpos], position_eq_none.mp hpos⟩
  | some idx =>
      obtain ⟨hi, hk, hlookup⟩ := position_eq_some hpos
      have hcount : idx < pool.count := by simpa using hi
      have hx : pool.live[idx]? = some pool.live[idx] := List.getElem?_eq_getElem hi
      refine .inr ⟨idx, pool.live[idx], ?_, hlookup, fun f => ?_⟩
      · simp [findSlot, hpos, Slots.getElem?_items hcount, hx]
      · rw [Slots.live_set, ← hk]
        exact set_eq_modifyFirst hkeys hx

/-! ## One instruction -/

/-- A deposit writes the slot of the record it credits, or the next free one. -/
lemma map_depositUsdcSlots (m : Pubkey) (n : AccountKey) (a : ℕ)
    (hkeys : NodupKeys byInvestor s.pool.live) :
    slotOutcome <$> depositUsdcSlots ctx m n a s = depositUsdc ctx m n a s.world := by
  have hcount : s.world.pool.count = s.pool.count := Slots.length_live
  simp only [depositUsdcSlots, depositUsdc, map_bind, map_pure, hcount]
  refine bind_congr fun _ => bind_congr fun _ => bind_congr fun _ => bind_congr fun _ =>
    bind_congr fun nft => bind_congr fun _ => bind_congr fun _ => bind_congr_ok fun _ hroom =>
    bind_congr fun _ => ?_
  have hinto : Slots.live <$> depositIntoSlots ctx.now s.state.usdcWithdrawLockSeconds ctx.signer
        nft.aatVolume a s.pool
      = depositInto ctx.now s.world.state.usdcWithdrawLockSeconds ctx.signer nft.aatVolume a
        s.world.pool.investors := map_depositIntoSlots hkeys (ensure_eq_ok.mp hroom)
  rw [← hinto, bind_map_left]
  rfl

/-- A removal frees the slot of the record it takes out. -/
lemma map_removeInvestorFromPoolSlots (k m : Pubkey) :
    slotOutcome <$> removeInvestorFromPoolSlots ctx k m s
      = removeInvestorFromPool ctx k m s.world := by
  simp only [removeInvestorFromPoolSlots, removeInvestorFromPool, map_bind, map_pure]
  refine bind_congr fun _ => bind_congr fun _ => bind_congr_ok fun idx hpos => ?_
  obtain ⟨hi, -⟩ := position_eq_some (okOr_eq_ok.mp hpos)
  have hitem : s.pool.items[idx]? = s.pool.live[idx]? :=
    Slots.getElem?_items (Slots.length_live (s := s.pool) ▸ hi)
  rw [hitem]
  refine bind_congr fun x => bind_congr fun _ => bind_congr fun refund => ?_
  obtain ⟨pool', hfree, hlive, -⟩ := freeSlot_spec (okOr_eq_ok.mp hpos)
  simp only [hfree, ok_bind, slotOutcome, SlotWorld.world, hlive]

/-- A withdrawal writes the slot of the record it debits. -/
lemma map_withdrawUsdcSlots (m : Pubkey) (a : ℕ) (hkeys : NodupKeys byInvestor s.pool.live) :
    slotOutcome <$> withdrawUsdcSlots ctx m a s = withdrawUsdc ctx m a s.world := by
  have hlive : s.world.pool.investors = s.pool.live := rfl
  simp only [withdrawUsdcSlots, withdrawUsdc, map_bind, map_pure, hlive]
  refine bind_congr fun _ => bind_congr fun _ => ?_
  rcases findSlot_spec ctx.signer hkeys with ⟨hfind, hlookup⟩ | ⟨idx, x, hfind, hlookup, hset⟩
  · simp only [hfind, hlookup]
    rfl
  · simp only [hfind, hlookup, okOr, ok_bind]
    refine bind_congr fun _ => bind_congr fun _ => bind_congr fun _ => bind_congr fun _ =>
      bind_congr fun _ => bind_congr fun _ => ?_
    rw [← hset]
    rfl

/-- A new unlock time is written to the slot of the record. -/
lemma map_setInvestorUsdcUnlockSlots (k : Pubkey) (ts : ℤ)
    (hkeys : NodupKeys byInvestor s.pool.live) :
    slotOutcome <$> setInvestorUsdcUnlockSlots ctx k ts s
      = setInvestorUsdcUnlock ctx k ts s.world := by
  have hlive : s.world.pool.investors = s.pool.live := rfl
  simp only [setInvestorUsdcUnlockSlots, setInvestorUsdcUnlock, map_bind, map_pure, hlive]
  refine bind_congr fun _ => ?_
  rcases findSlot_spec k hkeys with ⟨hfind, hlookup⟩ | ⟨idx, x, hfind, hlookup, hset⟩
  · rw [hfind, ensure_of_not _ (by simp [hlookup])]
    rfl
  · rw [hfind, ensure_of _ (by simp [hlookup]), ← hset]
    rfl

/-- A new volume is written to the slot of the record, if there is one. -/
lemma map_updateAatVolumeSlots (k : Pubkey) (v : ℕ) (hkeys : NodupKeys byInvestor s.pool.live) :
    slotOutcome <$> updateAatVolumeSlots ctx k v s = updateAatVolume ctx k v s.world := by
  have hlive : s.world.pool.investors = s.pool.live := rfl
  simp only [updateAatVolumeSlots, updateAatVolume, map_bind, map_pure, hlive]
  refine bind_congr fun _ => bind_congr fun _ => bind_congr fun _ => bind_congr fun _ =>
    bind_congr fun _ => bind_congr fun _ => bind_congr fun _ => ?_
  rcases findSlot_spec k hkeys with ⟨hfind, hlookup⟩ | ⟨idx, x, hfind, -, hset⟩
  · simp only [hfind, modifyFirst_of_none hlookup]
    rfl
  · simp only [hfind, ← hset]
    rfl

/-- Cancelling a round writes the slots that were locked. -/
lemma map_cancelRoundSlots : slotOutcome <$> cancelRoundSlots ctx s = cancelRound ctx s.world := by
  have hloop : (fun p => (p.1.live, p.2)) <$> s.pool.forLive unlockRecord ()
      = committed (forMut unlockRecord () s.world.pool.investors) := Slots.map_forLive _ _ _
  simp only [cancelRoundSlots, cancelRound, map_bind, map_pure, ← hloop, bind_map_left]
  rfl

/-- The handlers that write to slots themselves. -/
def Instruction.writesSlots : Instruction → Bool
  | .DepositUsdc _ _ _ | .RemoveInvestorFromPool _ _ | .WithdrawUsdc _ _
  | .SetInvestorUsdcUnlock _ _ | .UpdateAatVolume _ _ | .CancelRound => true
  | _ => false

/-- The other handlers write the slice back as a whole. -/
lemma execSlots_of_slice {i : Instruction} (hi : i.writesSlots = false) :
    execSlots env ctx i s = exec env ctx i s.world >>= fun p =>
      pure (p.1.withSlots (s.pool.overwrite p.1.pool.investors), p.2) := by
  cases i <;> first | rfl | cases hi

/-- The other handlers leave the number of investors alone. -/
lemma exec_length {i : Instruction} (h : Inv env w)
    (hopen : w.state.roundStarted = true → RoundOpen (w.decimals env) w.state)
    (hi : i.writesSlots = false) (hx : exec env ctx i w = .ok (w', r)) :
    w'.pool.investors.length = w.pool.investors.length := by
  have hsettles : ∀ {mid settled : World} {entries : List InvestorAlloc} {usdc dust : ℕ},
      Settles env ctx.now w mid settled w' entries usdc dust →
      w'.pool.investors.length = w.pool.investors.length := fun hs =>
    (hs.before.pool.length_eq.trans
      (hs.settle.settlement.records.length_eq.trans hs.after.pool.length_eq)).symm
  cases exec_effect h hopen hx with
  | SetUnlock | Withdraw | UpdateVolume | Deposit | Join | Remove | Cancel => cases hi
  | Close hstarted _ hsettled => exact hsettles (settles_of_close h hstarted hsettled)
  | Sell hopened hpaid _ => exact ((hopened.keeps h).trans hpaid.keeps).pool.length_eq.symm
  | SellFull hopened hpaid _ hsettled _ hnext =>
      exact hsettles (settles_of_fill h hopen hopened hpaid hsettled hnext)
  | _ => rfl

/-- **The array does what the list does**, with the same errors. -/
theorem map_execSlots (i : Instruction) (h : Inv env s.world)
    (hopen : s.world.state.roundStarted = true → RoundOpen (s.world.decimals env) s.world.state) :
    slotOutcome <$> execSlots env ctx i s = exec env ctx i s.world := by
  cases hi : i.writesSlots with
  | true =>
      cases i with
      | DepositUsdc m n a => exact map_depositUsdcSlots m n a.toNat h.keys
      | RemoveInvestorFromPool k m => exact map_removeInvestorFromPoolSlots k m
      | WithdrawUsdc m a => exact map_withdrawUsdcSlots m a.toNat h.keys
      | SetInvestorUsdcUnlock k ts => exact map_setInvestorUsdcUnlockSlots k ts.toInt h.keys
      | UpdateAatVolume k v => exact map_updateAatVolumeSlots k v.toNat h.keys
      | CancelRound => exact map_cancelRoundSlots
      | _ => cases hi
  | false =>
      rw [execSlots_of_slice hi, map_bind]
      cases hx : exec env ctx i s.world with
      | error e => rfl
      | ok p =>
          obtain ⟨w', r⟩ := p
          have hlength := (exec_length h hopen hi hx).trans Slots.length_live
          simp only [ok_bind, map_pure, slotOutcome]
          rw [world_withSlots_of_live (Slots.live_overwrite hlength)]
          rfl

/-- An instruction leaves zeros behind the count. -/
lemma execSlots_tidy {i : Instruction} (h : Inv env s.world)
    (hopen : s.world.state.roundStarted = true → RoundOpen (s.world.decimals env) s.world.state)
    (htidy : s.pool.Tidy .blank) (hx : execSlots env ctx i s = .ok (s', r)) :
    s'.pool.Tidy .blank := by
  cases hi : i.writesSlots with
  | true =>
      cases i with
      | DepositUsdc m n a =>
          simp only [execSlots, depositUsdcSlots, bind_eq_ok, ensure_eq_ok, pure_eq_ok,
            Prod.mk.injEq] at hx
          obtain ⟨_, -, _, -, _, -, _, -, _, -, _, -, _, -, _, hroom, _, -, pool, hinto, _, -, rfl,
            -⟩ := hx
          exact tidy_depositIntoSlots htidy hroom hinto
      | RemoveInvestorFromPool k m =>
          simp only [execSlots, removeInvestorFromPoolSlots, bind_eq_ok, okOr_eq_ok, Prod.exists,
            pure_eq_ok, Prod.mk.injEq] at hx
          obtain ⟨_, -, _, -, idx, hpos, _, -, _, -, _, _, -, pool, hfree, rfl, -⟩ := hx
          obtain ⟨pool', hfree', -, hkeep⟩ := freeSlot_spec hpos
          obtain rfl := Except.ok.inj (hfree'.symm.trans hfree)
          exact hkeep htidy
      | WithdrawUsdc m a =>
          simp only [execSlots, withdrawUsdcSlots, bind_eq_ok, okOr_eq_ok, Prod.exists, pure_eq_ok,
            Prod.mk.injEq] at hx
          obtain ⟨_, -, _, -, idx, x, hfind, _, -, _, -, _, -, _, -, _, -, _, -, rfl, -⟩ := hx
          exact htidy.set (findSlot_lt hfind)
      | SetInvestorUsdcUnlock k ts =>
          simp only [execSlots, setInvestorUsdcUnlockSlots, bind_eq_ok, okOr_eq_ok, Prod.exists,
            pure_eq_ok, Prod.mk.injEq] at hx
          obtain ⟨_, -, idx, x, hfind, rfl, -⟩ := hx
          exact htidy.set (findSlot_lt hfind)
      | UpdateAatVolume k v =>
          simp only [execSlots, updateAatVolumeSlots, bind_eq_ok, pure_eq_ok, Prod.mk.injEq] at hx
          obtain ⟨_, -, _, -, _, -, _, -, _, -, _, -, _, -, rfl, -⟩ := hx
          dsimp only
          split
          · rename_i idx x hfind
            exact htidy.set (findSlot_lt hfind)
          · exact htidy
      | CancelRound =>
          simp only [execSlots, cancelRoundSlots, bind_eq_ok, Prod.exists, pure_eq_ok,
            Prod.mk.injEq] at hx
          obtain ⟨_, -, _, -, _, -, pool, _, hloop, rfl, -⟩ := hx
          exact htidy.forLive hloop
      | _ => cases hi
  | false =>
      rw [execSlots_of_slice hi] at hx
      simp only [bind_eq_ok, Prod.exists, pure_eq_ok, Prod.mk.injEq] at hx
      obtain ⟨w', r', hx, rfl, -⟩ := hx
      exact htidy.overwrite ((exec_length h hopen hi hx).trans Slots.length_live)

/-! ## Runs -/

/-- A successful transaction on the array. -/
def SlotStep (env : Env) (s : SlotWorld) (tx : Tx) (s' : SlotWorld) : Prop :=
  execSlots env tx.ctx tx.instr s = .ok (s', tx.receipt)

/-- A fresh deployment: the pool account is all zeros. -/
def SlotInitial (env : Env) (s : SlotWorld) : Prop :=
  ∃ w, Initial env w ∧ s = w.withSlots (Slots.empty .blank)

/-- The worlds the program gets to on the array. -/
abbrev SlotReachable (env : Env) : SlotWorld → Prop :=
  Transition.Reachable (SlotInitial env) (SlotStep env)

lemma Reachable.slotOutcome_eq (hw : Reachable env s.world) (ctx : Context) (i : Instruction) :
    slotOutcome <$> execSlots env ctx i s = exec env ctx i s.world := by
  obtain ⟨hinv, hopen⟩ := reachable_inv hw
  exact map_execSlots i hinv hopen

/-- The array keeps in step with the list, and stays tidy. -/
lemma slots_lockstep (env : Env) :
    Transition.Lockstep (SlotInitial env) (SlotStep env) (Initial env) (Step env) SlotWorld.world
      fun s => s.pool.Tidy .blank where
  start := by
    rintro s ⟨w, hw, rfl⟩
    refine ⟨?_, Slots.tidy_empty⟩
    rwa [world_withSlots_of_live]
    exact hw.empty.1.symm
  start_lift := fun w hw => ⟨_, ⟨w, hw, rfl⟩, world_withSlots_of_live hw.empty.1.symm⟩
  forth := by
    rintro s ⟨ctx, i, r⟩ s' hw htidy hstep
    obtain ⟨hinv, hopen⟩ := reachable_inv hw
    exact ⟨(ok_iff_of_map_eq (Reachable.slotOutcome_eq hw ctx i)).mpr ⟨s', hstep, rfl⟩,
      execSlots_tidy hinv hopen htidy hstep⟩
  back := by
    rintro s ⟨ctx, i, r⟩ w hw - hstep
    exact (ok_iff_of_map_eq (Reachable.slotOutcome_eq hw ctx i)).mp hstep

lemma SlotWorld.ext_of_world (hs : s.pool.Tidy .blank) (hs' : s'.pool.Tidy .blank)
    (h : s.world = s'.world) : s = s' := by
  have hpool := hs.ext hs' (congrArg (fun w => w.pool.investors) h)
  cases s
  cases s'
  simp only [SlotWorld.world, World.mk.injEq] at h
  simp_all

/-- **The list is the array.**  The worlds the program gets to with its pool in a list are those it
gets to with its pool in an array and a count, each from one array.  The slots behind the count are
zero, and every transaction has the same outcome on both, whether it succeeds or fails. -/
theorem slots_refine (env : Env) :
    (∀ w, Reachable env w ↔ ∃ s, SlotReachable env s ∧ s.world = w) ∧
    (∀ s s', SlotReachable env s → SlotReachable env s' → s.world = s'.world → s = s') ∧
    ∀ s, SlotReachable env s → s.pool.Tidy .blank ∧
      ∀ ctx i, slotOutcome <$> execSlots env ctx i s = exec env ctx i s.world := by
  have hl := slots_lockstep env
  refine ⟨fun w => hl.reachable_iff, fun s s' hs hs' => ?_, fun s hs => ?_⟩
  · exact SlotWorld.ext_of_world (hl.reachable hs).2 (hl.reachable hs').2
  · obtain ⟨hw, htidy⟩ := hl.reachable hs
    exact ⟨htidy, Reachable.slotOutcome_eq hw⟩

end Floor
