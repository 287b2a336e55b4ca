import FloorProgram.Instructions.SellWaln
import FloorProgram.Instructions.Admin
import FloorProgram.Lemmas.StartRound

/-!
# The loops that settle or cancel a round

`unlockRecord`, the loop of `cancel_round`, gives every lock back.  `settlePool`, the two loops of a
full round, charges every lock in full and hands out the wALN it buys; the dust carried over from
earlier rounds goes to one participant, in its entry and in its record.

`settlePool_settlement` brings the second into the common form of `Settlement`.
-/

namespace Floor

open Checked Loop Keyed Search

/-! ## Cancelling -/

/-- A record with its lock returned. -/
def unlockedRecord (r : InvestorRecord) : InvestorRecord :=
  { r with usdcDeposited := r.position, usdcLockedCurrentRound := 0 }

/-- Unlocking a record moves its lock into its deposit. -/
lemma unlockRecord_ok {u u' : Unit} {r r' : InvestorRecord}
    (h : unlockRecord u r = .ok (r', u')) : r' = unlockedRecord r := by
  rw [unlockRecord] at h
  split_ifs at h with hlock
  · simp only [Except.ok.injEq, Prod.mk.injEq] at h
    obtain ⟨rfl, -⟩ := h
    obtain ⟨_, _, lock, _, _, _, _⟩ := r
    subst hlock
    rfl
  · simp only [bind_eq_ok, arith_eq_ok, checkedAdd_eq_some, pure_eq_ok, Prod.mk.injEq] at h
    obtain ⟨_, ⟨-, rfl⟩, rfl, -⟩ := h
    rfl

/-- A position that fits can be unlocked. -/
lemma unlockRecord_total {r : InvestorRecord} (h : r.position < 2 ^ 64) :
    ∃ r' u', unlockRecord () r = .ok (r', u') := by
  rw [unlockRecord]
  split_ifs
  · exact ⟨r, (), rfl⟩
  · rw [checkedAdd_of_lt h, arith_some, ok_bind]
    exact ⟨_, _, rfl⟩

/-- Unlocking moves USDC inside the record. -/
lemma moved_unlockedRecord (r : InvestorRecord) : Moved r (unlockedRecord r) :=
  ⟨rfl, rfl, rfl, rfl, rfl, Nat.add_zero _⟩

/-- The whole pool, unlocked. -/
lemma forMut_unlockRecord :
    ∀ {investors investors' : List InvestorRecord} {u u' : Unit},
      forMut unlockRecord u investors = (investors', .ok u') →
      investors' = investors.map unlockedRecord
  | [], _, _, _, h => by
      simp only [forMut_nil, Prod.mk.injEq] at h
      exact h.1.symm
  | r :: investors, _, _, _, h => by
      obtain ⟨r', _, rest, hr, hrest, rfl⟩ := forMut_cons_eq_ok h
      rw [unlockRecord_ok hr, forMut_unlockRecord hrest, List.map_cons]

/-- Positions that fit can all be unlocked. -/
lemma forMut_unlockRecord_total :
    ∀ {investors : List InvestorRecord}, (∀ r ∈ investors, r.position < 2 ^ 64) →
      ∃ investors', forMut unlockRecord () investors = (investors', .ok ())
  | [], _ => ⟨_, rfl⟩
  | r :: investors, h => by
      obtain ⟨r', u', hr⟩ := unlockRecord_total (h r (by simp))
      obtain ⟨rest, hrest⟩ := forMut_unlockRecord_total
        fun x hx => h x (List.mem_cons_of_mem r hx)
      exact ⟨r' :: rest, by rw [forMut_cons_ok investors hr, hrest]⟩

/-! ## Charging every lock -/

/-- The wALN a lock buys. -/
def baseWaln (scale floorPriceUsdc : ℕ) (r : InvestorRecord) : ℕ :=
  r.usdcLockedCurrentRound * scale / floorPriceUsdc

/-- The entry of a participant before any dust. -/
def baseEntry (scale floorPriceUsdc : ℕ) (r : InvestorRecord) : InvestorAlloc :=
  ⟨r.investor, baseWaln scale floorPriceUsdc r⟩

/-- A record charged its whole lock. -/
def chargedRecord (scale floorPriceUsdc : ℕ) (r : InvestorRecord) : InvestorRecord :=
  { r with
    usdcCommitted := r.usdcCommitted + r.usdcLockedCurrentRound
    usdcLockedCurrentRound := 0
    walnPurchasedTotal := r.walnPurchasedTotal + baseWaln scale floorPriceUsdc r }

/-- A record without a lock is charged nothing. -/
lemma chargedRecord_of_unlocked {s p : ℕ} {r : InvestorRecord}
    (h : r.usdcLockedCurrentRound = 0) : chargedRecord s p r = r := by
  obtain ⟨_, _, lock, _, _, _, _⟩ := r
  obtain rfl : lock = 0 := h
  simp [chargedRecord, baseWaln]

/-- Settling a record fails only by an overflow. -/
lemma failsOnly_settleRecord {P : TxError → Prop} (h : P (.Program .ArithmeticOverflow)) (s p : ℕ)
    (t : SettleTotals) (r : InvestorRecord) : FailsOnly P (settleRecord s p t r) := by
  refine failsOnly_ite (fun _ => failsOnly_ok _) fun _ => ?_
  refine failsOnly_bind (failsOnly_arith h) fun _ _ => ?_
  refine failsOnly_bind (failsOnly_arith h) fun _ _ => ?_
  refine failsOnly_bind (failsOnly_mulDivU64 h _ _ _) fun _ _ => ?_
  refine failsOnly_bind (failsOnly_arith h) fun _ _ => ?_
  refine failsOnly_bind (failsOnly_arith h) fun _ _ => ?_
  refine failsOnly_bind (failsOnly_arith h) fun _ _ => ?_
  exact failsOnly_bind (failsOnly_arith h) fun _ _ => failsOnly_pure _

/-- What one iteration does: nothing without a lock. -/
lemma settleRecord_ok {s p : ℕ} {t t' : SettleTotals} {r r' : InvestorRecord}
    (h : settleRecord s p t r = .ok (r', t')) :
    r' = chargedRecord s p r ∧
      t'.totalUsdcSpent = t.totalUsdcSpent + r.usdcLockedCurrentRound ∧
      t'.totalWalnPurchased = t.totalWalnPurchased + baseWaln s p r ∧
      t'.participantCountForDust = t.participantCountForDust + (participants [r]).length ∧
      t'.participantData = t.participantData ++ (participants [r]).map (baseEntry s p) := by
  rw [settleRecord] at h
  split_ifs at h with hlock
  · simp only [Except.ok.injEq, Prod.mk.injEq] at h
    obtain ⟨rfl, rfl⟩ := h
    simp [chargedRecord_of_unlocked hlock, baseWaln, participants, hlock]
  · simp only [bind_eq_ok, arith_eq_ok, checkedAdd_eq_some, mulDivU64_eq_ok, pure_eq_ok,
      Prod.mk.injEq] at h
    obtain ⟨_, ⟨-, rfl⟩, _, ⟨-, rfl⟩, _, ⟨-, -, -, rfl⟩, _, ⟨-, rfl⟩, _, ⟨-, rfl⟩, _, ⟨-, rfl⟩, _,
      ⟨-, rfl⟩, rfl, rfl⟩ := h
    simp [chargedRecord, baseWaln, participants, baseEntry, Nat.pos_of_ne_zero hlock]

/-- **The settlement loop in closed form.** -/
lemma forMut_settleRecord {s p : ℕ} :
    ∀ {investors investors' : List InvestorRecord} {t t' : SettleTotals},
      forMut (settleRecord s p) t investors = (investors', .ok t') →
      investors' = investors.map (chargedRecord s p) ∧
        t'.totalUsdcSpent = t.totalUsdcSpent + lockedUsdc investors ∧
        t'.totalWalnPurchased = t.totalWalnPurchased + (investors.map (baseWaln s p)).sum ∧
        t'.participantCountForDust = t.participantCountForDust + (participants investors).length ∧
        t'.participantData = t.participantData ++ (participants investors).map (baseEntry s p)
  | [], _, t, t', h => by
      simp only [forMut_nil, Prod.mk.injEq, Except.ok.injEq] at h
      obtain ⟨rfl, rfl⟩ := h
      simp [lockedUsdc, participants]
  | r :: investors, _, t, t', h => by
      obtain ⟨r', t₁, rest, hr, hrest, rfl⟩ := forMut_cons_eq_ok h
      obtain ⟨rfl, hspent, hwaln, hcount, hdata⟩ := settleRecord_ok hr
      obtain ⟨rfl, hspent', hwaln', hcount', hdata'⟩ := forMut_settleRecord hrest
      have hsplit : participants (r :: investors) = participants [r] ++ participants investors :=
        List.filter_append [r] investors
      refine ⟨rfl, ?_, ?_, ?_, ?_⟩
      · rw [hspent', hspent]
        simp [lockedUsdc, Nat.add_assoc]
      · rw [hwaln', hwaln]
        simp [Nat.add_assoc]
      · rw [hcount', hcount, hsplit, List.length_append, Nat.add_assoc]
      · rw [hdata', hdata, hsplit, List.map_append, List.append_assoc]

/-! ## The dust -/

/-- The winner's entry with the dust added. -/
def withDust (dustPool : ℕ) (a : InvestorAlloc) : InvestorAlloc :=
  { a with walnAmount := a.walnAmount + dustPool }

/-- The winner's record with the dust added. -/
def dustedRecord (dustPool : ℕ) (r : InvestorRecord) : InvestorRecord :=
  { r with walnPurchasedTotal := r.walnPurchasedTotal + dustPool }

lemma withDust_zero (a : InvestorAlloc) : withDust 0 a = a := rfl

lemma dustedRecord_zero (r : InvestorRecord) : dustedRecord 0 r = r := rfl

/-- The dust that comes on top for `k`: all of it if `k` is the participant the clock picks, and
nothing otherwise. -/
def dustBonus (now : ℤ) (dustPool : ℕ) (keys : List Pubkey) (k : Pubkey) : ℕ :=
  if keys[(now % 2 ^ 64).toNat % keys.length]? = some k then dustPool else 0

/-- Without dust there is no bonus. -/
lemma dustBonus_zero (now : ℤ) (keys : List Pubkey) (k : Pubkey) : dustBonus now 0 keys k = 0 :=
  ite_self 0

/-- Without participants there is no bonus. -/
lemma dustBonus_nil (now : ℤ) (dust : ℕ) (k : Pubkey) : dustBonus now dust [] k = 0 := by
  simp [dustBonus]

/-- The dust goes to the participant the clock picks. -/
lemma dustBonus_of_winner {now : ℤ} {keys : List Pubkey} {winner : Pubkey}
    (h : keys[(now % 2 ^ 64).toNat % keys.length]? = some winner) (dust : ℕ) (k : Pubkey) :
    dustBonus now dust keys k = if k = winner then dust else 0 := by
  rw [dustBonus, h]
  simp only [Option.some.injEq, eq_comm]

/-- Where there is a participant, the clock picks one. -/
lemma exists_dustWinner (now : ℤ) {keys : List Pubkey} (hne : keys ≠ []) :
    ∃ winner ∈ keys, keys[(now % 2 ^ 64).toNat % keys.length]? = some winner ∧
      ∀ dust k, dustBonus now dust keys k = if k = winner then dust else 0 := by
  have hlt := Nat.mod_lt (now % 2 ^ 64).toNat (List.length_pos_iff.mpr hne)
  have hget := List.getElem?_eq_getElem hlt
  exact ⟨_, List.getElem_mem hlt, hget, dustBonus_of_winner hget⟩

/-- The dust is handed out in full. -/
lemma sum_dustBonus (now : ℤ) (dust : ℕ) {keys : List Pubkey} (hnodup : keys.Nodup)
    (hne : keys ≠ []) : (keys.map (dustBonus now dust keys)).sum = dust := by
  obtain ⟨winner, hmem, -, hbonus⟩ := exists_dustWinner now hne
  rw [List.sum_map_eq_nsmul_single winner, List.count_eq_one_of_mem hnodup hmem, one_nsmul, hbonus,
    if_pos rfl]
  intro k hk _
  rw [hbonus, if_neg hk]

/-- Crediting the winner fails only by an overflow. -/
lemma failsOnly_creditWinner {P : TxError → Prop} (h : P (.Program .ArithmeticOverflow))
    (k : Pubkey) (dust : ℕ) (investors : List InvestorRecord) :
    FailsOnly P (creditWinner k dust investors) := by
  unfold creditWinner
  split
  · exact failsOnly_ok _
  · exact failsOnly_bind (failsOnly_arith h) fun _ _ => failsOnly_pure _

/-- The dust is added to the lifetime total of the winner alone. -/
lemma creditWinner_ok {k : Pubkey} {dust : ℕ} {investors investors' : List InvestorRecord}
    (hnodup : NodupKeys byInvestor investors)
    (h : creditWinner k dust investors = .ok investors') :
    investors' = modifyFirst byInvestor k (dustedRecord dust) investors := by
  rw [creditWinner] at h
  split at h
  · rename_i hnone
    obtain rfl := Except.ok.inj h
    exact (modifyFirst_of_none hnone).symm
  · rename_i r hr
    simp only [bind_eq_ok, arith_eq_ok, checkedAdd_eq_some, pure_eq_ok] at h
    obtain ⟨_, ⟨-, rfl⟩, rfl⟩ := h
    rw [modifyFirst_eq_map hnodup, modifyFirst_eq_map hnodup]
    refine List.map_congr_left fun x hx => ?_
    split_ifs with hk
    · -- the only record under the key is the one that was found
      rw [eq_of_key_eq hnodup hx (lookup_mem hr) (hk.trans (lookup_key hr).symm)]
      rfl
    · rfl

/-- **The award of the dust in closed form.** -/
lemma awardDust_ok {now : ℤ} {dust : ℕ} {investors investors' : List InvestorRecord}
    {t t' : SettleTotals} (hnodup : NodupKeys byInvestor investors)
    (hdata : NodupKeys InvestorAlloc.investor t.participantData)
    (hcount : t.participantCountForDust = t.participantData.length)
    (h : awardDust now dust investors t = .ok (investors', t')) :
    let bonus := dustBonus now dust (t.participantData.map InvestorAlloc.investor)
    investors' = investors.map (fun r => dustedRecord (bonus r.investor) r) ∧
      t' = { t with
        totalWalnPurchased :=
          t.totalWalnPurchased + if t.participantData = [] then 0 else dust
        participantData := t.participantData.map fun a => withDust (bonus a.investor) a } := by
  intro bonus
  rw [awardDust] at h
  split_ifs at h with hdust
  · dsimp only at h
    split at h
    · simp at h
    · rename_i winner hwinner
      simp only [bind_eq_ok, arith_eq_ok, checkedAdd_eq_some, pure_eq_ok, Prod.mk.injEq] at h
      obtain ⟨_, ⟨-, rfl⟩, _, ⟨-, rfl⟩, _, hcredit, rfl, rfl⟩ := h
      have hbonus : ∀ k, bonus k = if k = winner.investor then dust else 0 := by
        refine dustBonus_of_winner ?_ dust
        rw [hcount] at hwinner
        rw [List.length_map, List.getElem?_map, hwinner, Option.map_some]
      have hset := set_eq_modifyFirst (f := withDust dust) hdata hwinner
      simp only [withDust] at hset
      rw [hset, creditWinner_ok hnodup hcredit, modifyFirst_eq_map hnodup, modifyFirst_eq_map hdata,
        if_neg (List.ne_nil_of_length_pos (hcount ▸ hdust.2))]
      refine ⟨List.map_congr_left fun r _ => ?_, ?_⟩
      · rw [hbonus]
        split_ifs <;> rfl
      · congr 1
        refine List.map_congr_left fun a _ => ?_
        rw [hbonus]
        split_ifs <;> rfl
  · simp only [Except.ok.injEq, Prod.mk.injEq] at h
    obtain ⟨rfl, rfl⟩ := h
    have hnone : dust = 0 ∨ t.participantData = [] := by
      rw [← List.length_eq_zero_iff]
      omega
    have hbonus : ∀ k, bonus k = 0 := by
      rcases hnone with rfl | hnil
      · exact dustBonus_zero _ _
      · intro k
        rw [show bonus k = dustBonus now dust _ k from rfl, hnil]
        exact dustBonus_nil now dust k
    have htotal : (if t.participantData = [] then 0 else dust) = 0 := by
      rcases hnone with rfl | hnil
      · exact ite_self 0
      · exact if_pos hnil
    simp only [hbonus, htotal, withDust_zero, dustedRecord_zero, List.map_id', Nat.add_zero,
      and_self]

/-! ## The settlement of a full round -/

/-- Writing the account of a round fails only in the system program. -/
lemma failsOnly_writeRoundLockedWaln {P : TxError → Prop} (h : P .SystemProgram) {env : Env}
    {treasury lamports i : ℕ} {unlock : ℤ} {entries : List InvestorAlloc}
    {accounts : List (Account RoundLockedWaln)} :
    FailsOnly P (writeRoundLockedWaln env treasury lamports i unlock entries accounts) := by
  refine failsOnly_ite (fun _ => failsOnly_ok _) fun _ => ?_
  exact failsOnly_bind (failsOnly_openRoundAccount h _ _ _ _ _) fun _ _ => failsOnly_pure _

/-- Writing the record of a round fails only in the system program. -/
lemma failsOnly_writeRoundRecord {P : TxError → Prop} (h : P .SystemProgram) {env : Env}
    {treasury lamports : ℕ} {record : RoundRecord} {accounts : List (Account RoundRecord)} :
    FailsOnly P (writeRoundRecord env treasury lamports record accounts) :=
  failsOnly_bind (failsOnly_openRoundAccount h _ _ _ _ _) fun _ _ => failsOnly_pure _

/-- The participants have distinct keys. -/
lemma nodupKeys_participants {investors : List InvestorRecord}
    (h : NodupKeys byInvestor investors) : NodupKeys byInvestor (participants investors) :=
  h.sublist (List.filter_sublist.map byInvestor)

/-- Keys taken from the participants of a pool with distinct keys are distinct. -/
lemma nodupKeys_data {investors : List InvestorRecord} {data : List InvestorAlloc}
    (hnodup : NodupKeys byInvestor investors)
    (hkeys : data.map InvestorAlloc.investor = (participants investors).map byInvestor) :
    NodupKeys InvestorAlloc.investor data := by
  rw [NodupKeys, hkeys]
  exact nodupKeys_participants hnodup

/-- **From the loop's data to a settlement**: the data is sorted into the entries. -/
lemma Settlement.of_data {investors investors' : List InvestorRecord} {data : List InvestorAlloc}
    {usdc : ℕ} (hnodup : NodupKeys byInvestor investors)
    (hkeys : data.map InvestorAlloc.investor = (participants investors).map byInvestor)
    (hpos : ∀ a ∈ data, 0 < a.walnAmount)
    (hrec : List.Forall₂ (SettledRecord data) investors investors')
    (hcharged : committedUsdc investors' = committedUsdc investors + usdc) :
    Settlement investors investors' (sortByKey InvestorAlloc.investor data) usdc := by
  have hperm : (sortByKey InvestorAlloc.investor data).Perm data := sortByKey_perm data
  have hdata := nodupKeys_data hnodup hkeys
  refine ⟨hrec.imp fun r r' hr => ?_, hcharged, sorted_of_nodup hdata,
    fun a ha => hpos a (hperm.mem_iff.mp ha), hkeys ▸ hperm.map _⟩
  have hamount : amountOf (sortByKey InvestorAlloc.investor data) r.investor
      = amountOf data r.investor := (valueOf_perm hdata hperm.symm).symm
  exact ⟨hr.investor, hr.aatVolume, hr.usdcUnlockTs, hr.unlocked, hr.usdc,
    hamount ▸ hr.walnPurchasedTotal⟩

/-- Without the bonus, the entries sum to what the locks are worth. -/
lemma entriesWaln_baseEntry (s p : ℕ) (investors : List InvestorRecord) :
    entriesWaln ((participants investors).map (baseEntry s p))
      = (investors.map (baseWaln s p)).sum := by
  rw [entriesWaln, List.map_map]
  exact sum_participants (baseWaln s p) fun r hr => by rw [baseWaln, hr, Nat.zero_mul, Nat.zero_div]

/-- Where every entry is positive, none is dropped before sorting. -/
lemma claimableEntries_of_pos {data : List InvestorAlloc} (h : ∀ a ∈ data, 0 < a.walnAmount) :
    claimableEntries data = sortByKey InvestorAlloc.investor data := by
  rw [claimableEntries, List.filter_eq_self.mpr fun a ha => decide_eq_true (h a ha)]

/-- Sorting keeps the sum of the entries. -/
lemma entriesWaln_sortByKey (data : List InvestorAlloc) :
    entriesWaln (sortByKey InvestorAlloc.investor data) = entriesWaln data :=
  ((sortByKey_perm data).map InvestorAlloc.walnAmount).sum_eq

section FullRound

variable {s p : ℕ} {now : ℤ} {dust : ℕ} {investors investors' : List InvestorRecord}
  {r : InvestorRecord}

/-- The dust on top of what the lock of a record buys. -/
def bonusOf (now : ℤ) (dust : ℕ) (investors : List InvestorRecord) (r : InvestorRecord) : ℕ :=
  dustBonus now dust ((participants investors).map byInvestor) r.investor

/-- What the participants of a full round are allocated. -/
def fullEntries (s p : ℕ) (now : ℤ) (dust : ℕ) (investors : List InvestorRecord) :
    List InvestorAlloc :=
  (participants investors).map fun r => withDust (bonusOf now dust investors r) (baseEntry s p r)

/-- A record after a full round. -/
def fullRecord (s p : ℕ) (now : ℤ) (dust : ℕ) (investors : List InvestorRecord)
    (r : InvestorRecord) : InvestorRecord :=
  dustedRecord (bonusOf now dust investors r) (chargedRecord s p r)

/-- **The two loops of a full round in closed form.** -/
lemma settlePool_ok {t : SettleTotals} (hnodup : NodupKeys byInvestor investors)
    (h : settlePool s p now dust investors = .ok (investors', t)) :
    investors' = investors.map (fullRecord s p now dust investors) ∧
      t.totalUsdcSpent = lockedUsdc investors ∧
      t.totalWalnPurchased
        = (investors.map (baseWaln s p)).sum + (if participants investors = [] then 0 else dust) ∧
      t.participantData = fullEntries s p now dust investors := by
  simp only [settlePool, bind_eq_ok, Prod.exists, committed_eq_ok] at h
  obtain ⟨charged, t₀, ⟨hl, ht⟩, hdust⟩ := h
  obtain ⟨rfl, hspent, hwaln, hcount, hdata⟩ := forMut_settleRecord (Prod.ext hl ht)
  simp only [SettleTotals.zero, Nat.zero_add, List.nil_append] at hspent hwaln hcount hdata
  have hkeys : t₀.participantData.map InvestorAlloc.investor
      = (participants investors).map byInvestor := by rw [hdata, List.map_map]; rfl
  have hnodup' : NodupKeys byInvestor (investors.map (chargedRecord s p)) := by
    rw [NodupKeys, List.map_map]
    exact hnodup
  have hcount' : t₀.participantCountForDust = t₀.participantData.length := by
    rw [hcount, hdata, List.length_map]
  obtain ⟨rfl, rfl⟩ := awardDust_ok hnodup' (nodupKeys_data hnodup hkeys) hcount' hdust
  refine ⟨?_, hspent, ?_, ?_⟩
  · rw [hkeys, List.map_map]
    rfl
  · simp only [hwaln, hdata, List.map_eq_nil_iff]
  · simp only [hkeys]
    rw [hdata, List.map_map]
    rfl

/-- The entries of a full round are those of its participants. -/
lemma fullEntries_keys : (fullEntries s p now dust investors).map InvestorAlloc.investor
    = (participants investors).map byInvestor := by
  rw [fullEntries, List.map_map]
  rfl

/-- Who has no lock gets no dust. -/
lemma bonusOf_of_unlocked (hnodup : NodupKeys byInvestor investors) (hr : r ∈ investors)
    (hlock : r.usdcLockedCurrentRound = 0) : bonusOf now dust investors r = 0 := by
  rw [bonusOf, dustBonus, if_neg]
  intro hget
  obtain ⟨x, hx, hk⟩ := List.mem_map.mp (List.mem_of_getElem? hget)
  obtain ⟨hmem, hpos⟩ := mem_participants.mp hx
  obtain rfl : x = r := eq_of_key_eq hnodup hmem hr hk
  omega

/-- A full round hands out the worth of the lock, and the bonus to one participant. -/
lemma amountOf_fullEntries (hnodup : NodupKeys byInvestor investors) (hr : r ∈ investors) :
    amountOf (fullEntries s p now dust investors) r.investor
      = baseWaln s p r + bonusOf now dust investors r := by
  rcases Nat.eq_zero_or_pos r.usdcLockedCurrentRound with h0 | hpos
  · -- no entry has this key: it would belong to a participant with the same investor
    have hnone : ∀ a ∈ fullEntries s p now dust investors, a.investor ≠ r.investor := by
      intro a ha hk
      obtain ⟨x, hx, rfl⟩ := List.mem_map.mp ha
      obtain ⟨hmem, hlock⟩ := mem_participants.mp hx
      obtain rfl : x = r := eq_of_key_eq hnodup hmem hr hk
      omega
    rw [amountOf_of_forall_ne hnone, bonusOf_of_unlocked hnodup hr h0, baseWaln, h0, Nat.zero_mul,
      Nat.zero_div]
  · exact valueOf_of_mem (nodupKeys_data hnodup fullEntries_keys)
      (List.mem_map_of_mem (mem_participants.mpr ⟨hr, hpos⟩)) rfl

/-- The entries hold what the locks buy, and the dust. -/
lemma entriesWaln_fullEntries (hnodup : NodupKeys byInvestor investors)
    (hsome : participants investors ≠ []) :
    entriesWaln (fullEntries s p now dust investors)
      = (investors.map (baseWaln s p)).sum + dust := by
  have hdust := sum_dustBonus now dust (nodupKeys_participants hnodup)
    (mt List.map_eq_nil_iff.mp hsome)
  rw [List.map_map] at hdust
  have hsplit : entriesWaln (fullEntries s p now dust investors)
      = entriesWaln ((participants investors).map (baseEntry s p))
        + ((participants investors).map (bonusOf now dust investors)).sum := by
    rw [entriesWaln, entriesWaln, fullEntries, List.map_map, List.map_map, ← List.sum_map_add]
    rfl
  rw [hsplit, entriesWaln_baseEntry]
  exact congrArg _ hdust

/-- The record after a full round is settled by its entry. -/
lemma settledRecord_full (hnodup : NodupKeys byInvestor investors) (hr : r ∈ investors) :
    SettledRecord (fullEntries s p now dust investors) r (fullRecord s p now dust investors r) := by
  refine ⟨rfl, rfl, rfl, rfl, ?_, ?_⟩
  · simp only [fullRecord, dustedRecord, chargedRecord, InvestorRecord.position]
    omega
  · rw [amountOf_fullEntries hnodup hr]
    simp only [fullRecord, dustedRecord, chargedRecord]
    omega

/-- A full round charges every lock as a whole. -/
lemma committedUsdc_full :
    committedUsdc (investors.map (fullRecord s p now dust investors))
      = committedUsdc investors + lockedUsdc investors := by
  rw [committedUsdc, committedUsdc, lockedUsdc, List.map_map, ← List.sum_map_add]
  rfl

/-- **A full round settles.**  Every lock is charged in full; the entries are those of the
participants and hold together what the locks buy and the dust carried over. -/
theorem settlePool_settlement {t : SettleTotals} (hnodup : NodupKeys byInvestor investors)
    (hpos : ∀ r ∈ participants investors, 0 < baseWaln s p r)
    (hsome : participants investors ≠ [])
    (h : settlePool s p now dust investors = .ok (investors', t)) :
    t.totalUsdcSpent = lockedUsdc investors ∧
      t.totalWalnPurchased = (investors.map (baseWaln s p)).sum + dust ∧
      entriesWaln (claimableEntries t.participantData) = t.totalWalnPurchased ∧
      t.participantData.length = (participants investors).length ∧
      Settlement investors investors' (claimableEntries t.participantData)
        (lockedUsdc investors) := by
  obtain ⟨rfl, hspent, hwaln, hdata⟩ := settlePool_ok hnodup h
  rw [if_neg hsome] at hwaln
  have hentries : ∀ a ∈ fullEntries s p now dust investors, 0 < a.walnAmount := by
    intro a ha
    obtain ⟨r, hr, rfl⟩ := List.mem_map.mp ha
    exact Nat.add_pos_left (hpos r hr) _
  rw [hdata, claimableEntries_of_pos hentries, entriesWaln_sortByKey,
    entriesWaln_fullEntries hnodup hsome]
  refine ⟨hspent, hwaln, hwaln.symm, by rw [fullEntries, List.length_map], ?_⟩
  refine Settlement.of_data hnodup fullEntries_keys hentries ?_ committedUsdc_full
  rw [List.forall₂_map_right_iff, List.forall₂_same]
  exact fun r hr => settledRecord_full hnodup hr

end FullRound

end Floor
