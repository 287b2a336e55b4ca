import FloorProgram.Codec.Borsh
import FloorProgram.Core.Keyed

/-!
# Reading the round accounts back

`floor-sdk.ts`.  The SDK does not use Borsh to read the two round accounts: it reads numbers from a
buffer at offsets that are written out in the code.

`fetchInvestorAlloc_eq` and `fetchRoundRecord_eq` say that these offsets are those of the fields.
-/

namespace Floor

open Bytes Keyed

/-! ## The decoders -/

/-- What the SDK throws. -/
inductive SdkError
  /-- `throw new Error(message)`. -/
  | Error (message : String)
  /-- A read beyond the end of a buffer. -/
  | RangeError
  deriving DecidableEq, Repr

/-- The data of an account, if there is one at the address. -/
abbrev Connection := AccountKey → Option (List UInt8)

/-- A read of `w` bytes at `off`, or an exception. -/
def readBuffer {α : Type} (decode : List UInt8 → α) (w : ℕ) (buf : List UInt8) (off : ℕ) :
    Except SdkError α :=
  if off + w ≤ buf.length then .ok (decode (slice buf off w)) else .error .RangeError

/-- `Buffer.readUInt8`. -/
def readUInt8 : List UInt8 → ℕ → Except SdkError ℕ := readBuffer leNat 1

/-- `Buffer.readUInt32LE`. -/
def readUInt32LE : List UInt8 → ℕ → Except SdkError ℕ := readBuffer leNat 4

/-- `Buffer.readBigUInt64LE`. -/
def readBigUInt64LE : List UInt8 → ℕ → Except SdkError ℕ := readBuffer leNat 8

/-- `Buffer.readBigInt64LE`. -/
def readBigInt64LE : List UInt8 → ℕ → Except SdkError ℤ := readBuffer leInt 8

/-- `new PublicKey(bytes)`. -/
def publicKey (bytes : List UInt8) : Pubkey := Fin.ofNat _ (beNat bytes)

/-- What `fetchInvestorAlloc` returns for an investor. -/
structure FetchedAlloc where
  investor : Pubkey
  walnAmount : ℕ
  unlock : ℤ
  claimed : Bool
  deriving DecidableEq, Repr

/-- The loop of `fetchInvestorAlloc`, with `n` entries to go, the first of them the `i`-th. -/
def scanAllocs (buf : List UInt8) (investor : Pubkey) (unlock : ℤ) :
    ℕ → ℕ → Except SdkError (Option FetchedAlloc)
  | 0, _ => .ok none
  | n + 1, i =>
    let off := 33 + i * 40
    if buf.length < off + 40 then .ok none
    else
      let key := publicKey (slice buf off 32)
      if key = investor then do
        let walnAmount ← readBigUInt64LE buf (off + 32)
        return some { investor := key, walnAmount := walnAmount, unlock := unlock,
                      claimed := decide (walnAmount = 0) }
      else scanAllocs buf investor unlock n (i + 1)

/-- `fetchInvestorAlloc`: the entry of one investor in the account of a round. -/
def fetchInvestorAlloc (getAccountInfo : Connection) (roundIndex : ℕ) (investor : Pubkey) :
    Except SdkError (Option FetchedAlloc) :=
  match getAccountInfo (.RoundLockedWaln roundIndex) with
  | none => .ok none
  | some buf =>
    if buf.length < 33 then .ok none
    else do
      let unlock ← readBigInt64LE buf 17
      let count ← readUInt32LE buf 29
      scanAllocs buf investor unlock count 0

/-- `fetchRoundRecord`: the summary of a round.  What it returns has the fields of the account. -/
def fetchRoundRecord (getAccountInfo : Connection) (roundIndex : ℕ) : Except SdkError RoundRecord :=
  match getAccountInfo (.RoundRecord roundIndex) with
  | none => .error (.Error ("RoundRecord account not found for roundIndex=" ++ toString roundIndex))
  | some data => do
    let buf := data.drop 8
    let roundIndexDecoded ← readBigUInt64LE buf 0
    let triggeredAt ← readBigInt64LE buf 8
    let walnPurchased ← readBigUInt64LE buf 16
    let usdcSpent ← readBigUInt64LE buf 24
    let totalAatVolumeAtTrigger ← readBigUInt64LE buf 32
    let participantCount ← readUInt32LE buf 40
    let bump ← readUInt8 buf 44
    return { roundIndex := roundIndexDecoded, triggeredAt := triggeredAt,
             walnPurchased := walnPurchased, usdcSpent := usdcSpent,
             totalAatVolumeAtTrigger := totalAatVolumeAtTrigger,
             participantCount := participantCount, bump := bump }

/-! ## Reading a field where it stands -/

section Read

variable {buf : List UInt8} {off w : ℕ}

lemma readBuffer_at {α : Type} (decode : List UInt8 → α) {bytes : List UInt8}
    (h : At buf off bytes) (hlen : bytes.length = w) :
    readBuffer decode w buf off = .ok (decode bytes) := by
  subst hlen
  rw [readBuffer, if_pos h.le, h.slice_eq]

lemma readBuffer_leNat {n : ℕ} (h : At buf off (leBytes w n)) (hn : n < 256 ^ w) :
    readBuffer leNat w buf off = .ok n := by
  rw [readBuffer_at leNat h (length_leBytes _ _), leNat_leBytes_of_lt hn]

lemma readBigInt64LE_at {z : ℤ} (h : At buf off (leIntBytes 8 z)) (hz : -2 ^ 63 ≤ z ∧ z < 2 ^ 63) :
    readBigInt64LE buf off = .ok z := by
  have hlow : -256 ^ 8 ≤ 2 * z := by omega
  have hhigh : 2 * z < 256 ^ 8 := by omega
  rw [readBigInt64LE, readBuffer_at leInt h (length_leIntBytes _ _), leInt_leIntBytes hlow hhigh]

/-- A key is found again. -/
lemma publicKey_beBytes (k : Pubkey) : publicKey (beBytes 32 k) = k := by
  have hk : (k : ℕ) < 256 ^ 32 := k.isLt
  apply Fin.ext
  rw [publicKey, beNat_beBytes_of_lt hk]
  exact Nat.mod_eq_of_lt k.isLt

end Read

/-! ## The record of a round -/

/-- **The SDK reads a record back.** -/
lemma fetchRoundRecord_eq {getAccountInfo : Connection} {i : ℕ} {disc : Discriminator}
    {record : RoundRecord} (hfits : record.Fits)
    (hinfo : getAccountInfo (.RoundRecord i) = some (record.accountData disc)) :
    fetchRoundRecord getAccountInfo i = .ok record := by
  have hdrop : (record.accountData disc).drop 8 = record.serialize :=
    List.drop_left' disc.length_toList
  have hroundIndex : readBigUInt64LE record.serialize 0 = .ok record.roundIndex :=
    readBuffer_leNat (at_flatten (i := 0) rfl rfl) hfits.roundIndex
  have htriggeredAt : readBigInt64LE record.serialize 8 = .ok record.triggeredAt :=
    readBigInt64LE_at (at_flatten (i := 1) rfl (by simp [RoundRecord.fields])) hfits.triggeredAt
  have hwalnPurchased : readBigUInt64LE record.serialize 16 = .ok record.walnPurchased :=
    readBuffer_leNat (at_flatten (i := 2) rfl (by simp [RoundRecord.fields])) hfits.walnPurchased
  have husdcSpent : readBigUInt64LE record.serialize 24 = .ok record.usdcSpent :=
    readBuffer_leNat (at_flatten (i := 3) rfl (by simp [RoundRecord.fields])) hfits.usdcSpent
  have hvolume : readBigUInt64LE record.serialize 32 = .ok record.totalAatVolumeAtTrigger :=
    readBuffer_leNat (at_flatten (i := 4) rfl (by simp [RoundRecord.fields]))
      hfits.totalAatVolumeAtTrigger
  have hcount : readUInt32LE record.serialize 40 = .ok record.participantCount :=
    readBuffer_leNat (at_flatten (i := 5) rfl (by simp [RoundRecord.fields]))
      hfits.participantCount
  have hbump : readUInt8 record.serialize 44 = .ok record.bump :=
    readBuffer_leNat (at_flatten (i := 6) rfl (by simp [RoundRecord.fields])) hfits.bump
  rw [fetchRoundRecord, hinfo]
  simp only [hdrop, hroundIndex, htriggeredAt, hwalnPurchased, husdcSpent, hvolume, hcount, hbump,
    Checked.ok_bind]
  rfl

/-! ## The entries of a round -/

/-- What the SDK makes of an entry. -/
def fetchedAlloc (unlock : ℤ) (a : InvestorAlloc) : FetchedAlloc :=
  { investor := a.investor, walnAmount := a.walnAmount, unlock := unlock,
    claimed := decide (a.walnAmount = 0) }

section Scan

variable {buf : List UInt8} {off : ℕ} {a : InvestorAlloc}

/-- The key of an entry, where the loop looks for it. -/
lemma publicKey_at (h : At buf off a.serialize) : publicKey (slice buf off 32) = a.investor := by
  have hkey : At a.serialize 0 (beBytes 32 a.investor) := at_flatten (i := 0) rfl rfl
  have hslice := (h.inside hkey).slice_eq
  rw [length_beBytes, Nat.add_zero] at hslice
  rw [hslice, publicKey_beBytes]

/-- The amount of an entry, where the loop looks for it. -/
lemma readAmount_at (h : At buf off a.serialize) (ha : a.walnAmount < 2 ^ 64) :
    readBigUInt64LE buf (off + 32) = .ok a.walnAmount := by
  have hamount : At a.serialize 32 (leBytes 8 a.walnAmount) := at_flatten (i := 1) rfl (by simp)
  exact readBuffer_leNat (h.inside hamount) ha

/-- **The loop finds the first entry of the investor.**  The induction is on the entries it has not
seen; those it has seen only count for the offset. -/
lemma scanAllocs_eq (k : Pubkey) (unlock : ℤ) {seen rest : List InvestorAlloc}
    (hat : ∀ i a, (seen ++ rest)[i]? = some a → At buf (33 + i * 40) a.serialize)
    (hfits : ∀ a ∈ rest, a.walnAmount < 2 ^ 64) :
    scanAllocs buf k unlock rest.length seen.length
      = .ok ((lookup InvestorAlloc.investor k rest).map (fetchedAlloc unlock)) := by
  induction rest generalizing seen with
  | nil => rfl
  | cons a rest ih =>
      have hentry : At buf (33 + seen.length * 40) a.serialize := hat _ _ (by simp)
      have hroom : ¬ buf.length < 33 + seen.length * 40 + 40 := by
        have hle := hentry.le
        rw [a.serialize_length] at hle
        omega
      rw [List.length_cons, scanAllocs]
      simp only [if_neg hroom, publicKey_at hentry]
      by_cases hk : a.investor = k
      · have hlookup : lookup InvestorAlloc.investor k (a :: rest) = some a := by
          simp [lookup, hk]
        rw [if_pos hk, readAmount_at hentry (hfits a (by simp)), hlookup]
        rfl
      · have hlookup : lookup InvestorAlloc.investor k (a :: rest)
            = lookup InvestorAlloc.investor k rest := by
          simp [lookup, hk]
        have hnext : scanAllocs buf k unlock rest.length (seen ++ [a]).length
            = .ok ((lookup InvestorAlloc.investor k rest).map (fetchedAlloc unlock)) :=
          ih (by simpa using hat) fun b hb => hfits b (by simp [hb])
        rw [List.length_append, List.length_singleton] at hnext
        rw [if_neg hk, hlookup]
        exact hnext

end Scan

/-- The entries of an account, where the loop looks for them. -/
lemma RoundLockedWaln.at_entry (disc : Discriminator) (rlw : RoundLockedWaln) {i : ℕ}
    {a : InvestorAlloc} (h : rlw.investors[i]? = some a) :
    At (rlw.fields disc).flatten (33 + i * 40) a.serialize := by
  have hentries : At (rlw.fields disc).flatten 33
      (rlw.investors.flatMap InvestorAlloc.serialize) :=
    at_flatten (i := 6) rfl (by simp [RoundLockedWaln.fields])
  exact hentries.inside (at_flatMap (fun a _ => a.serialize_length) h)

/-- **The SDK finds the entry of an investor.** -/
lemma fetchInvestorAlloc_eq {getAccountInfo : Connection} {i : ℕ} {disc : Discriminator}
    {rlw : RoundLockedWaln} {bytes : List UInt8} (hfits : rlw.Fits)
    (hbytes : rlw.trySerialize disc = some bytes)
    (hinfo : getAccountInfo (.RoundLockedWaln i) = some bytes) (k : Pubkey) :
    fetchInvestorAlloc getAccountInfo i k
      = .ok ((lookup InvestorAlloc.investor k rlw.investors).map (fetchedAlloc rlw.unlock)) := by
  have hcount : rlw.investors.length < 2 ^ 32 := RoundLockedWaln.count_lt hbytes
  have hlength := RoundLockedWaln.trySerialize_length hbytes
  rw [RoundLockedWaln.trySerialize_eq disc hcount, Option.some.injEq] at hbytes
  subst hbytes
  have hheader : ¬ (rlw.fields disc).flatten.length < 33 := by
    rw [hlength, RoundLockedWaln.space]
    omega
  have hunlock : readBigInt64LE (rlw.fields disc).flatten 17 = .ok rlw.unlock :=
    readBigInt64LE_at (at_flatten (i := 3) rfl (by simp [RoundLockedWaln.fields])) hfits.unlock
  have hentries : readUInt32LE (rlw.fields disc).flatten 29 = .ok rlw.investors.length :=
    readBuffer_leNat (at_flatten (i := 5) rfl (by simp [RoundLockedWaln.fields])) hcount
  have hat : ∀ i a, ([] ++ rlw.investors)[i]? = some a →
      At (rlw.fields disc).flatten (33 + i * 40) a.serialize := fun i a h => rlw.at_entry disc h
  have hscan : scanAllocs (rlw.fields disc).flatten k rlw.unlock rlw.investors.length 0
      = .ok ((lookup InvestorAlloc.investor k rlw.investors).map (fetchedAlloc rlw.unlock)) :=
    scanAllocs_eq k rlw.unlock hat hfits.walnAmount
  rw [fetchInvestorAlloc, hinfo]
  simp only [if_neg hheader, hunlock, hentries, hscan, Checked.ok_bind]

/-! ## Claims -/

lemma takeAllocation_ok {now : ℤ} {k : Pubkey} {amount : ℕ} {rlw rlw' : RoundLockedWaln}
    (h : takeAllocation now k rlw = .ok (amount, rlw')) :
    ∃ idx, rlw' = rlw.claimed idx (rlw.remainingToClaim - 1) := by
  simp only [takeAllocation, Checked.bind_eq_ok, arith_eq_ok, Checked.checkedSub_eq_some,
    Checked.pure_eq_ok, Prod.mk.injEq] at h
  obtain ⟨_, -, idx, -, _, -, _, -, _, ⟨-, rfl⟩, -, rfl⟩ := h
  exact ⟨idx, rfl⟩

section Claimed

variable {rlw : RoundLockedWaln} (idx : ℕ)

lemma RoundLockedWaln.claimed_length (rlw : RoundLockedWaln) (idx m : ℕ) :
    (rlw.claimed idx m).investors.length = rlw.investors.length :=
  List.length_modify _ _ _

/-- A claim clears an amount, so what fitted fits. -/
lemma RoundLockedWaln.Fits.claimed (h : rlw.Fits) :
    (rlw.claimed idx (rlw.remainingToClaim - 1)).Fits := by
  refine ⟨h.roundIndex, h.bump, h.unlock, ?_, ?_⟩
  · exact (Nat.sub_le _ _).trans_lt h.remainingToClaim
  · intro a ha
    obtain ⟨i, hi⟩ := List.mem_iff_getElem?.mp ha
    simp only [RoundLockedWaln.claimed, List.getElem?_modify, Option.map_eq_map,
      Option.map_eq_some_iff] at hi
    obtain ⟨x, hx, rfl⟩ := hi
    have hfits := h.walnAmount x (List.mem_of_getElem? hx)
    split_ifs
    · exact Nat.two_pow_pos 64
    · exact hfits

/-- A claim leaves the keys alone. -/
lemma RoundLockedWaln.claimed_keys (m : ℕ) (h : NodupKeys InvestorAlloc.investor rlw.investors) :
    NodupKeys InvestorAlloc.investor (rlw.claimed idx m).investors := by
  have hkeys : (rlw.claimed idx m).investors.map InvestorAlloc.investor
      = rlw.investors.map InvestorAlloc.investor := by
    refine List.ext_getElem? fun i => ?_
    simp only [RoundLockedWaln.claimed, List.getElem?_map, List.getElem?_modify,
      Option.map_eq_map, Option.map_map]
    congr 1
    funext a
    simp only [Function.comp_apply]
    split_ifs <;> rfl
  rw [NodupKeys, hkeys]
  exact h

end Claimed

/-! ## The codecs agree -/

/-- The bytes of an account fit where they are written, and the SDK reads its entries from them. -/
structure RoundLockedWaln.Encodes (disc : Discriminator) (rlw : RoundLockedWaln)
    (bytes : List UInt8) : Prop where
  written : rlw.trySerialize disc = some bytes
  size : bytes.length = RoundLockedWaln.space rlw.investors.length
  /-- A settlement writes to an account of this size. -/
  created : ∀ data, data.length = RoundLockedWaln.space rlw.investors.length →
    writeAccount data bytes = some bytes
  /-- A claim writes to the account as it is, and leaves one like it. -/
  claim : ∀ now k amount rlw', takeAllocation now k rlw = .ok (amount, rlw') →
    rlw'.Fits ∧ NodupKeys InvestorAlloc.investor rlw'.investors ∧
    rlw'.investors.length = rlw.investors.length ∧
    ∃ bytes', rlw'.trySerialize disc = some bytes' ∧ writeAccount bytes bytes' = some bytes'
  /-- The SDK finds the entry of everybody who has one. -/
  listed : ∀ getAccountInfo i, getAccountInfo (.RoundLockedWaln i) = some bytes →
    ∀ a ∈ rlw.investors, fetchInvestorAlloc getAccountInfo i a.investor
      = .ok (some { investor := a.investor, walnAmount := a.walnAmount, unlock := rlw.unlock,
                    claimed := decide (a.walnAmount = 0) })
  /-- It finds nothing for anybody else. -/
  unlisted : ∀ getAccountInfo i, getAccountInfo (.RoundLockedWaln i) = some bytes →
    ∀ k, (∀ a ∈ rlw.investors, a.investor ≠ k) → fetchInvestorAlloc getAccountInfo i k = .ok none

lemma RoundLockedWaln.encodes (disc : Discriminator) {rlw : RoundLockedWaln} (hfits : rlw.Fits)
    (hcount : rlw.investors.length < 2 ^ 32)
    (hkeys : NodupKeys InvestorAlloc.investor rlw.investors) :
    rlw.Encodes disc (rlw.fields disc).flatten := by
  have hbytes := RoundLockedWaln.trySerialize_eq disc hcount
  have hlength := RoundLockedWaln.trySerialize_length hbytes
  refine ⟨hbytes, hlength, ?_, ?_, ?_, ?_⟩
  · intro data hdata
    exact writeAccount_of_length_eq (hdata.trans hlength.symm)
  · intro now k amount rlw' htake
    obtain ⟨idx, rfl⟩ := takeAllocation_ok htake
    have hsame := rlw.claimed_length idx (rlw.remainingToClaim - 1)
    have hbytes' := RoundLockedWaln.trySerialize_eq disc (hsame.symm ▸ hcount)
    refine ⟨hfits.claimed idx, RoundLockedWaln.claimed_keys idx _ hkeys, hsame, _, hbytes', ?_⟩
    apply writeAccount_of_length_eq
    rw [hlength, RoundLockedWaln.trySerialize_length hbytes', hsame]
  · intro getAccountInfo i hinfo a ha
    rw [fetchInvestorAlloc_eq hfits hbytes hinfo, (lookup_eq_some_iff hkeys).mpr ⟨ha, rfl⟩]
    rfl
  · intro getAccountInfo i hinfo k hk
    rw [fetchInvestorAlloc_eq hfits hbytes hinfo, lookup_eq_none.mpr hk]
    rfl

/-- **The account codecs agree.**  The bytes of a `RoundLockedWaln` fill the space the account is
created with, and the SDK reads the entries from them.  The bytes of a `RoundRecord` fill the space
of theirs, and the SDK reads the record from them. -/
theorem account_codecs_agree (disc disc' : Discriminator) {rlw : RoundLockedWaln}
    {record : RoundRecord} (hfits : rlw.Fits) (hcount : rlw.investors.length < 2 ^ 32)
    (hkeys : NodupKeys InvestorAlloc.investor rlw.investors) (hrecord : record.Fits) :
    (∃ bytes, rlw.Encodes disc bytes) ∧
    (record.accountData disc').length = RoundRecord.space ∧
    ∀ getAccountInfo i, getAccountInfo (.RoundRecord i) = some (record.accountData disc') →
      fetchRoundRecord getAccountInfo i = .ok record := by
  have hencodes := RoundLockedWaln.encodes disc hfits hcount hkeys
  refine ⟨⟨_, hencodes⟩, record.accountData_length disc', ?_⟩
  intro getAccountInfo i hinfo
  exact fetchRoundRecord_eq hrecord hinfo

/-- An account of which one entry is claimed and the other is as large as it can be. -/
def halfClaimed : RoundLockedWaln :=
  { roundIndex := 3, bump := 254, unlock := 1700000000, remainingToClaim := 1,
    investors := [⟨21, 0⟩, ⟨2222222222222222222222222222222222222222, 2 ^ 64 - 1⟩] }

/-- A record from before the epoch. -/
def earlyRecord : RoundRecord :=
  { roundIndex := 3, triggeredAt := -1, walnPurchased := 2 ^ 64 - 1, usdcSpent := 15,
    totalAatVolumeAtTrigger := 30, participantCount := 2, bump := 255 }

theorem account_codecs_agree_halfClaimed :
    ∃ bytes, halfClaimed.Encodes (Vector.replicate 8 7) bytes ∧ bytes.length = 113 ∧
      fetchInvestorAlloc (fun _ => some bytes) 3 21
        = .ok (some ⟨21, 0, 1700000000, true⟩) ∧
      fetchInvestorAlloc (fun _ => some bytes) 3 22 = .ok none ∧
      fetchRoundRecord (fun _ => some (earlyRecord.accountData (Vector.replicate 8 9))) 3
        = .ok earlyRecord := by
  have hfits : halfClaimed.Fits := by
    refine ⟨by decide, by decide, by decide, by decide, by decide⟩
  have hrecord : earlyRecord.Fits := by
    refine ⟨by decide, by decide, by decide, by decide, by decide, by decide, by decide⟩
  have hkeys : NodupKeys InvestorAlloc.investor halfClaimed.investors := by
    unfold NodupKeys
    decide
  obtain ⟨⟨bytes, hencodes⟩, -, hread⟩ := account_codecs_agree (Vector.replicate 8 7)
    (Vector.replicate 8 9) hfits (by decide) hkeys hrecord
  exact ⟨bytes, hencodes, hencodes.size, hencodes.listed _ 3 rfl ⟨21, 0⟩ (by decide),
    hencodes.unlisted _ 3 rfl 22 (by decide), hread _ 3 rfl⟩

end Floor
