import FloorProgram.Core.Bytes
import FloorProgram.Instructions.ClaimWaln

/-!
# The bytes of the round accounts

`state.rs`.  Both kinds of account are written by Anchor and Borsh: the discriminator of the type,
and then its fields in the order they are declared in, integers in little-endian, keys as their 32
bytes, and a vector as its length and its entries.  The discriminators are parameters; all that
matters of them is that they are eight bytes long.

`trySerialize_length` says that the size constants, which are written by hand, are right.
-/

namespace Floor

open Bytes Keyed

/-- The first eight bytes of an account tell its type. -/
abbrev Discriminator := Vector UInt8 8

/-! ## Writing -/

/-- `InvestorAlloc`. -/
def InvestorAlloc.serialize (a : InvestorAlloc) : List UInt8 :=
  [beBytes 32 a.investor, leBytes 8 a.walnAmount].flatten

/-- A vector: its length as a `u32`, which it may be too long for, and its entries. -/
def serializeVec {α : Type} (serialize : α → List UInt8) (l : List α) : Option (List UInt8) :=
  if l.length < 2 ^ 32 then some (leBytes 4 l.length ++ l.flatMap serialize) else none

/-- `RoundLockedWaln`, with its discriminator. -/
def RoundLockedWaln.trySerialize (disc : Discriminator) (rlw : RoundLockedWaln) :
    Option (List UInt8) := do
  let investors ← serializeVec InvestorAlloc.serialize rlw.investors
  return [disc.toList, leBytes 8 rlw.roundIndex, leBytes 1 rlw.bump, leIntBytes 8 rlw.unlock,
    leBytes 4 rlw.remainingToClaim, investors].flatten

/-- The fields of a `RoundRecord`. -/
def RoundRecord.fields (record : RoundRecord) : List (List UInt8) :=
  [leBytes 8 record.roundIndex, leIntBytes 8 record.triggeredAt, leBytes 8 record.walnPurchased,
    leBytes 8 record.usdcSpent, leBytes 8 record.totalAatVolumeAtTrigger,
    leBytes 4 record.participantCount, leBytes 1 record.bump]

/-- `RoundRecord`. -/
def RoundRecord.serialize (record : RoundRecord) : List UInt8 := record.fields.flatten

/-- The data of a `RoundRecord` account: the discriminator, which the handlers write on their own,
and the record. -/
def RoundRecord.accountData (disc : Discriminator) (record : RoundRecord) : List UInt8 :=
  disc.toList ++ record.serialize

/-- Write to the front of an account's data.  The data does not grow: what is too long for it is
not written. -/
def writeAccount (data bytes : List UInt8) : Option (List UInt8) :=
  if bytes.length ≤ data.length then some (bytes ++ data.drop bytes.length) else none

lemma writeAccount_of_length_eq {data bytes : List UInt8} (h : data.length = bytes.length) :
    writeAccount data bytes = some bytes := by
  rw [writeAccount, if_pos h.ge, ← h, List.drop_length, List.append_nil]

/-! ## The sizes -/

lemma InvestorAlloc.serialize_length (a : InvestorAlloc) : a.serialize.length = 32 + 8 := by
  simp [InvestorAlloc.serialize]

/-- The fields of a `RoundLockedWaln`, after its discriminator; the vector is its length and its
entries. -/
def RoundLockedWaln.fields (disc : Discriminator) (rlw : RoundLockedWaln) : List (List UInt8) :=
  [disc.toList, leBytes 8 rlw.roundIndex, leBytes 1 rlw.bump, leIntBytes 8 rlw.unlock,
    leBytes 4 rlw.remainingToClaim, leBytes 4 rlw.investors.length,
    rlw.investors.flatMap InvestorAlloc.serialize]

/-- The bytes of an account, field by field. -/
lemma RoundLockedWaln.trySerialize_eq (disc : Discriminator) {rlw : RoundLockedWaln}
    (h : rlw.investors.length < 2 ^ 32) :
    rlw.trySerialize disc = some (rlw.fields disc).flatten := by
  rw [RoundLockedWaln.trySerialize, serializeVec, if_pos h]
  simp [RoundLockedWaln.fields]

/-- Only so many entries can be written. -/
lemma RoundLockedWaln.count_lt {disc : Discriminator} {rlw : RoundLockedWaln} {bytes : List UInt8}
    (h : rlw.trySerialize disc = some bytes) : rlw.investors.length < 2 ^ 32 := by
  by_contra hlong
  rw [RoundLockedWaln.trySerialize, serializeVec, if_neg hlong] at h
  simp at h

/-- **The size of a `RoundLockedWaln` account** is the one it is created with. -/
lemma RoundLockedWaln.trySerialize_length {disc : Discriminator} {rlw : RoundLockedWaln}
    {bytes : List UInt8} (h : rlw.trySerialize disc = some bytes) :
    bytes.length = RoundLockedWaln.space rlw.investors.length := by
  have hcount := RoundLockedWaln.count_lt h
  have hentries : (rlw.investors.flatMap InvestorAlloc.serialize).length
      = rlw.investors.length * (32 + 8) := by
    rw [List.length_flatMap, List.map_congr_left fun a _ => a.serialize_length, List.map_const',
      List.sum_replicate_nat]
  rw [trySerialize_eq disc hcount, Option.some.injEq] at h
  rw [← h, RoundLockedWaln.space, RoundLockedWaln.fields]
  simp only [List.flatten_cons, List.flatten_nil, List.length_append, List.length_nil,
    Vector.length_toList, length_leBytes, length_leIntBytes, hentries]
  omega

lemma RoundRecord.accountData_length (disc : Discriminator) (record : RoundRecord) :
    (record.accountData disc).length = RoundRecord.space := by
  simp [RoundRecord.accountData, RoundRecord.serialize, RoundRecord.fields, RoundRecord.space]

/-! ## Values of the machine types -/

/-- The fields fit their types. -/
structure RoundLockedWaln.Fits (rlw : RoundLockedWaln) : Prop where
  roundIndex : rlw.roundIndex < 2 ^ 64
  bump : rlw.bump < 2 ^ 8
  unlock : -2 ^ 63 ≤ rlw.unlock ∧ rlw.unlock < 2 ^ 63
  remainingToClaim : rlw.remainingToClaim < 2 ^ 32
  walnAmount : ∀ a ∈ rlw.investors, a.walnAmount < 2 ^ 64

/-- The fields fit their types. -/
structure RoundRecord.Fits (record : RoundRecord) : Prop where
  roundIndex : record.roundIndex < 2 ^ 64
  triggeredAt : -2 ^ 63 ≤ record.triggeredAt ∧ record.triggeredAt < 2 ^ 63
  walnPurchased : record.walnPurchased < 2 ^ 64
  usdcSpent : record.usdcSpent < 2 ^ 64
  totalAatVolumeAtTrigger : record.totalAatVolumeAtTrigger < 2 ^ 64
  participantCount : record.participantCount < 2 ^ 32
  bump : record.bump < 2 ^ 8

end Floor
