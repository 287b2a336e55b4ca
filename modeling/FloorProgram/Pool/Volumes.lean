import FloorProgram.Refinement

/-!
# The copies of the AAT volumes

The volume of an investor stands in the metadata of the AAT NFT, is copied into the pool record by
deposits and volume updates, and is summed up in the global total.  Records come and go: a volume
may be wound down to zero, the record removed, the volume raised again and the record made anew.
The copies agree all the same (`aat_volumes_consistent`), so nobody's share of a round is computed
from a stale volume.
-/

namespace Floor

open Checked Keyed

section Copies

variable {total : ℕ} {nfts : List AatNft} {investors : List InvestorRecord}

/-- The NFT of an investor in the pool, and its volume. -/
lemma AatInv.lookup_eq (h : AatInv total nfts investors) {r : InvestorRecord}
    (hr : r ∈ investors) :
    ∃ nft, lookup nftHolder r.investor nfts = some nft ∧ nft.aatVolume = r.aatVolume := by
  obtain ⟨nft, hmem, hkey, hvolume⟩ := h.matched r hr
  exact ⟨nft, (lookup_eq_some_iff h.holders).mpr ⟨hmem, hkey⟩, hvolume⟩

/-- A deposit writes the volume that is there. -/
lemma AatInv.volume_eq (h : AatInv total nfts investors) {r : InvestorRecord} {nft : AatNft}
    {k : Pubkey} (hr : lookup byInvestor k investors = some r)
    (hnft : lookup nftHolder k nfts = some nft) : nft.aatVolume = r.aatVolume := by
  obtain ⟨nft', hlookup, hvolume⟩ := h.lookup_eq (lookup_mem hr)
  rw [show r.investor = k from lookup_key hr, hnft] at hlookup
  obtain rfl := Option.some.inj hlookup
  exact hvolume

lemma AatInv.volume_le_total (h : AatInv total nfts investors) {nft : AatNft} (hnft : nft ∈ nfts) :
    nft.aatVolume ≤ total := by
  rw [h.total]
  exact List.single_le_sum (fun _ _ => Nat.zero_le _) _ (List.mem_map_of_mem hnft)

end Copies

/-- **The AAT volumes are consistent** in every reachable world.  The total is the sum of the
volumes of all NFTs and at most 100%; nobody has two NFTs, and every pool record has the volume of
its investor's NFT; so the pool's volumes sum to at most the total, and taking an NFT's volume from
the total, as `update_aat_volume` does, never underflows. -/
theorem aat_volumes_consistent {env : Env} {w : World} (h : Reachable env w) :
    w.state.totalAatVolume = (w.aatNfts.map AatNft.aatVolume).sum ∧
    w.state.totalAatVolume ≤ 1000000 ∧
    NodupKeys nftHolder w.aatNfts ∧
    (∀ r ∈ w.pool.investors, ∃ nft, lookup nftHolder r.investor w.aatNfts = some nft ∧
      nft.aatVolume = r.aatVolume) ∧
    (w.pool.investors.map InvestorRecord.aatVolume).sum ≤ w.state.totalAatVolume ∧
    (∀ key k nft, verifyAatNftAndGetAllocation w.aatNfts key k = .ok nft →
      checkedSub w.state.totalAatVolume nft.aatVolume
        = some (w.state.totalAatVolume - nft.aatVolume)) := by
  obtain ⟨hinv, -⟩ := reachable_inv h
  have haat := hinv.aat
  refine ⟨haat.total, haat.total_le, haat.holders, fun r hr => haat.lookup_eq hr, ?_,
    fun key k nft hverify => ?_⟩
  · rw [haat.total]
    exact sum_le_of_matched hinv.keys haat.matched
  · rw [verifyAatNftAndGetAllocation_eq_ok] at hverify
    exact checkedSub_of_le (haat.volume_le_total (lookup_mem hverify.2))

/-- An investor's volume is wound down, the record removed, the volume raised again, and the
investor deposits again. -/
def windDownAndBack : List (Context × Instruction) :=
  [(signedBy 1 1 [], .MintAatNft 21 600000),
   (signedBy 1 1 [], .MintAatNft 22 400000),
   (signedBy 21 1 [], .DepositUsdc 10 (.AatNft 21) 20),
   (signedBy 22 1 [], .DepositUsdc 10 (.AatNft 22) 20),
   (signedBy 1 2 [], .UpdateAatVolume 21 0),
   (signedBy 1 2 [], .RemoveInvestorFromPool 21 10),
   (signedBy 1 3 [], .UpdateAatVolume 21 500000),
   (signedBy 21 4 [], .DepositUsdc 10 (.AatNft 21) 20)]

/-- After `windDownAndBack` the total and the pool hold `900000`. -/
theorem aat_volumes_consistent_windDownAndBack :
    ∃ w, Reachable (sampleEnv 9) w ∧ w.state.totalAatVolume = 900000 ∧
      w.state.totalAatVolume = (w.aatNfts.map AatNft.aatVolume).sum ∧
      w.pool.investors.map (fun r => (r.investor, r.aatVolume)) = [(22, 400000), (21, 500000)] ∧
      (w.pool.investors.map InvestorRecord.aatVolume).sum ≤ w.state.totalAatVolume := by
  obtain ⟨w₀, hist, w, hinit, hrun, hw⟩ := exists_sample_history 9 3 5000000000 windDownAndBack
    (fun _ _ w => w.state.totalAatVolume = 900000 ∧
      w.pool.investors.map (fun r => (r.investor, r.aatVolume)) = [(22, 400000), (21, 500000)])
    (by decide +kernel)
  have hreach := hrun.reachable hinit
  simp only [decide_eq_true_eq] at hw
  obtain ⟨htotal, -, -, -, hsum, -⟩ := aat_volumes_consistent hreach
  exact ⟨w, hreach, hw.1, htotal, hw.2, hsum⟩

end Floor
