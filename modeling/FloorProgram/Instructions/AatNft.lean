import FloorProgram.Utils

/-!
# AAT NFTs

`mint_aat_nft.rs` and `update_aat_volume.rs`.  The volume of an investor lives in three places: in
the metadata of the NFT, in the investor's pool slot, and summed up in the global total.
-/

namespace Floor

open Checked Keyed

/-- `mint_aat_nft`: mint the derived NFT of `investor`.  The system program refuses to allocate an
address that is already in use, so an investor gets at most one. -/
def mintAatNft (ctx : Context) (investor : Pubkey) (aatVolume : ℕ) (w : World) :
    Except TxError (World × Receipt) := do
  adminOnly ctx w.state
  ensure (0 < aatVolume) .InvalidParameter
  ensure (w.state.frozen = false) .ContractFrozen
  let newTotal ← arith (checkedAdd 64 w.state.totalAatVolume aatVolume)
  ensure (newTotal ≤ MAX_TOTAL_AAT_VOLUME) .WalnAllocationLimitExceeded
  require ((lookup nftHolder investor w.aatNfts).isSome = false) .SystemProgram
  require (ctx.cpiAccepts = true) .TokenProgram
  return ({ w with
      state := { w.state with totalAatVolume := newTotal }
      aatNfts := w.aatNfts ++ [{ investor := investor, aatVolume := aatVolume, amount := 1 }] },
    {})

/-- `update_aat_volume`: rewrite the metadata, and the pool slot if the investor has one. -/
def updateAatVolume (ctx : Context) (investor : Pubkey) (newVolume : ℕ) (w : World) :
    Except TxError (World × Receipt) := do
  adminOnly ctx w.state
  ensure (w.state.roundStarted = false) .FundsLocked
  let nft ← verifyAatNftAndGetAllocation w.aatNfts (.AatNft investor) investor
  let rest ← arith (checkedSub w.state.totalAatVolume nft.aatVolume)
  let newTotal ← arith (checkedAdd 64 rest newVolume)
  ensure (newTotal ≤ MAX_TOTAL_AAT_VOLUME) .WalnAllocationLimitExceeded
  require (ctx.cpiAccepts = true) .TokenProgram
  let aatNfts := modifyFirst nftHolder investor (fun n => { n with aatVolume := newVolume })
    w.aatNfts
  let investors := modifyFirst byInvestor investor (fun r => { r with aatVolume := newVolume })
    w.pool.investors
  return ({ w with
      state := { w.state with totalAatVolume := newTotal }
      aatNfts := aatNfts
      pool := { investors := investors } },
    {})

end Floor
