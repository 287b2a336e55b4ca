import FloorProgram.Codec.Sdk
import FloorProgram.Rounds.Claims

/-!
# The round accounts of a reachable world

What the SDK shows of the worlds the program gets to.  The chain is `World.connection`: the round
accounts of a world, as bytes, under their addresses.

An account has no more entries than the pool has places (`Reachable.entries_le`), and its amounts
are in the vault (`Inv.walnAmount_lt`), so that what the program stores can be written and
read.  `Reachable.claim_as_shown` says that a claim pays what the SDK has shown before it.
-/

namespace Floor

open Bytes Keyed

variable {env : Env} {w w' : World} {ctx : Context}

/-! ## What the program stores -/

/-- Only participants have an entry, so there are at most as many entries as investors. -/
lemma Settlement.entries_le {investors investors' : List InvestorRecord}
    {entries : List InvestorAlloc} {usdc : ℕ} (h : Settlement investors investors' entries usdc) :
    entries.length ≤ investors.length := by
  have hkeys := h.keys.length_eq
  rw [List.length_map, List.length_map] at hkeys
  exact hkeys.trans_le (List.length_filter_le _ _)

/-- A transaction keeps the accounts within the size of the pool. -/
lemma Effect.entries_le {i : Instruction} {r : Receipt} (hinv : Inv env w)
    (hopen : w.state.roundStarted = true → RoundOpen (w.decimals env) w.state)
    (he : Effect env w ctx i w' r)
    (h : ∀ a ∈ w.roundLockedWaln, a.data.investors.length ≤ MAX_INVESTORS) :
    ∀ a ∈ w'.roundLockedWaln, a.data.investors.length ≤ MAX_INVESTORS := by
  intro b hb
  rcases he.settles_or_keeps hinv hopen with ⟨m, j, rfl⟩ | ⟨haccounts, -⟩ | ⟨mid, _, _, _, _, hs⟩
  · obtain ⟨account, a, hc⟩ := he.claimed hinv
    rcases hc.accounts with ⟨-, haccounts⟩ | ⟨-, haccounts⟩
    · rw [haccounts] at hb
      exact h b (List.mem_filter.mp hb).1
    · rw [haccounts] at hb
      rcases mem_modifyFirst hc.found hb with hb | rfl
      · exact h b hb
      · have hkeys : (clearedAccount ctx.signer account).data.investors.map InvestorAlloc.investor
            = account.data.investors.map InvestorAlloc.investor := map_modifyFirst fun _ => rfl
        have hlength := congrArg List.length hkeys
        rw [List.length_map, List.length_map] at hlength
        exact hlength.trans_le (h account (lookup_mem hc.found))
  · exact h b (haccounts ▸ hb)
  · obtain ⟨l, haccounts⟩ := hs.account
    rw [haccounts, List.mem_append, List.mem_singleton] at hb
    rcases hb with hb | rfl
    · exact h b hb
    · exact hs.settle.settlement.entries_le.trans hs.inv.count_le

/-- **An account has at most as many entries as the pool has places.** -/
theorem Reachable.entries_le (h : Reachable env w) :
    ∀ a ∈ w.roundLockedWaln, a.data.investors.length ≤ MAX_INVESTORS := by
  refine Transition.Reachable.invariant
    (P := fun w => ∀ a ∈ w.roundLockedWaln, a.data.investors.length ≤ MAX_INVESTORS) ?_ ?_ h
  · intro w hinit
    rw [hinit.empty.2]
    simp
  · intro w tx w' hreach ih hstep
    obtain ⟨hinv, hopen⟩ := reachable_inv hreach
    exact (exec_effect hinv hopen hstep).entries_le hinv hopen ih

/-- The fields of an account that come from outside the program fit their types: the index it is
looked up with, the bump of its address, and a time of the clock. -/
structure RoundLockedWaln.HeaderFits (rlw : RoundLockedWaln) : Prop where
  roundIndex : rlw.roundIndex < 2 ^ 64
  bump : rlw.bump < 2 ^ 8
  unlock : -2 ^ 63 ≤ rlw.unlock ∧ rlw.unlock < 2 ^ 63

section Stored

variable {account : Account RoundLockedWaln}

/-- What an account holds is in the vault. -/
lemma Inv.walnAmount_lt (h : Inv env w) (haccount : account ∈ w.roundLockedWaln) :
    ∀ a ∈ account.data.investors, a.walnAmount < 2 ^ 64 := by
  intro a ha
  have hentry : a.walnAmount ≤ entriesWaln account.data.investors :=
    List.single_le_sum (fun _ _ => Nat.zero_le _) _ (List.mem_map_of_mem ha)
  have hlocked : entriesWaln account.data.investors ≤ lockedWaln w.roundLockedWaln :=
    List.single_le_sum (fun _ _ => Nat.zero_le _) _
      (List.mem_map_of_mem (f := fun a => entriesWaln a.data.investors) haccount)
  have hvault := h.waln.vault
  have hlt := h.waln.vault_lt
  omega

/-- The other fields fit because the program counts them. -/
lemma Reachable.fits (h : Reachable env w) (haccount : account ∈ w.roundLockedWaln)
    (hheader : account.data.HeaderFits) : account.data.Fits := by
  obtain ⟨hinv, -⟩ := reachable_inv h
  have hremaining : account.data.remainingToClaim ≤ account.data.investors.length := by
    rw [(hinv.waln.accounts account haccount).remaining]
    exact List.length_filter_le _ _
  have hentries := Reachable.entries_le h account haccount
  refine ⟨hheader.roundIndex, hheader.bump, hheader.unlock, ?_, hinv.walnAmount_lt haccount⟩
  rw [MAX_INVESTORS] at hentries
  omega

/-- **Every account of a reachable world can be written**, and read. -/
theorem Reachable.encodes (disc : Discriminator) (h : Reachable env w)
    (haccount : account ∈ w.roundLockedWaln) (hheader : account.data.HeaderFits) :
    account.data.Encodes disc (account.data.fields disc).flatten := by
  have hentries := Reachable.entries_le h account haccount
  refine RoundLockedWaln.encodes disc (Reachable.fits h haccount hheader) ?_
    ((reachable_inv h).1.waln.accounts account haccount).sorted.nodupKeys
  rw [MAX_INVESTORS] at hentries
  omega

end Stored

/-! ## What the SDK shows -/

/-- The round accounts of a world, as the SDK gets them. -/
def World.connection (lockedDisc recordDisc : Discriminator) (w : World) : Connection
  | .RoundLockedWaln i =>
    (lookup lockedIndex i w.roundLockedWaln).bind fun account =>
      account.data.trySerialize lockedDisc
  | .RoundRecord i =>
    (lookup recordIndex i w.roundRecords).map fun account => account.data.accountData recordDisc
  | _ => none

/-- The entry of `k` in the account of round `i`. -/
def World.shown (w : World) (i : ℕ) (k : Pubkey) : Option FetchedAlloc :=
  (lookup lockedIndex i w.roundLockedWaln).bind fun account =>
    (lookup InvestorAlloc.investor k account.data.investors).map (fetchedAlloc account.data.unlock)

section Shown

variable {lockedDisc recordDisc : Discriminator} {i : ℕ} {k : Pubkey}

/-- **The SDK shows the entries of a reachable world.** -/
theorem Reachable.fetch_eq_shown (h : Reachable env w)
    (hheader : ∀ account, lookup lockedIndex i w.roundLockedWaln = some account →
      account.data.HeaderFits) :
    fetchInvestorAlloc (w.connection lockedDisc recordDisc) i k = .ok (w.shown i k) := by
  cases haccount : lookup lockedIndex i w.roundLockedWaln with
  | none => simp [fetchInvestorAlloc, World.connection, World.shown, haccount]
  | some account =>
      have hmem := lookup_mem haccount
      have hwritten := (Reachable.encodes lockedDisc h hmem (hheader account haccount)).written
      have hinfo : w.connection lockedDisc recordDisc (.RoundLockedWaln i)
          = some (account.data.fields lockedDisc).flatten := by
        simp only [World.connection, haccount, Option.bind_some, hwritten]
      rw [fetchInvestorAlloc_eq (Reachable.fits h hmem (hheader account haccount)) hwritten hinfo]
      simp only [World.shown, haccount, Option.bind_some]

end Shown

/-- What a claim changes of what is shown to its signer. -/
lemma Claimed.shown {i : ℕ} {account : Account RoundLockedWaln} {a : InvestorAlloc} {r : Receipt}
    (hc : Claimed w ctx i account a w' r) :
    w.shown i ctx.signer = some (fetchedAlloc account.data.unlock a) ∧
      (w'.shown i ctx.signer = none ∨
        w'.shown i ctx.signer = some (fetchedAlloc account.data.unlock (clearedAlloc a))) := by
  refine ⟨by simp only [World.shown, hc.found, Option.bind_some, hc.entry, Option.map_some], ?_⟩
  rcases hc.accounts with ⟨-, haccounts⟩ | ⟨-, haccounts⟩
  · left
    rw [World.shown, haccounts, lookup_filter_self, Option.bind_none]
  · right
    have hkey : ∀ b : InvestorAlloc, (clearedAlloc b).investor = b.investor := fun _ => rfl
    rw [World.shown, haccounts, lookup_clearedAccount, if_pos rfl, hc.found]
    simp only [Option.map_some, Option.bind_some, clearedAccount, lookup_modifyFirst hkey,
      if_pos, hc.entry]

/-- **A claim pays what the SDK has shown.**  Before it the SDK shows the amount, unlocked and
not yet claimed; afterwards it shows that it is claimed, or nothing if this was the last claim. -/
theorem Reachable.claim_as_shown {lockedDisc recordDisc : Discriminator} {m : Pubkey} {i : UInt64}
    {r : Receipt} (h : Reachable env w)
    (hheader : ∀ account ∈ w.roundLockedWaln, account.data.HeaderFits)
    (hstep : Step env w ⟨ctx, .ClaimWaln m i, r⟩ w') :
    ∃ shown,
      fetchInvestorAlloc (w.connection lockedDisc recordDisc) i.toNat ctx.signer
        = .ok (some shown) ∧
      shown.walnAmount = r.walnOut ∧ shown.unlock ≤ ctx.now ∧ shown.claimed = false ∧
      (fetchInvestorAlloc (w'.connection lockedDisc recordDisc) i.toNat ctx.signer = .ok none ∨
        fetchInvestorAlloc (w'.connection lockedDisc recordDisc) i.toNat ctx.signer
          = .ok (some { shown with walnAmount := 0, claimed := true })) := by
  obtain ⟨hinv, -⟩ := reachable_inv h
  have he : Effect env w ctx (.ClaimWaln m i) w' r := Reachable.effect h hstep
  obtain ⟨account, a, hc⟩ := he.claimed hinv
  obtain ⟨hbefore, hafter⟩ := hc.shown
  have hheader' : ∀ account', lookup lockedIndex i.toNat w'.roundLockedWaln = some account' →
      account'.data.HeaderFits := by
    intro account' haccount'
    rcases hc.accounts with ⟨-, haccounts⟩ | ⟨-, haccounts⟩
    · rw [haccounts, lookup_filter_self] at haccount'
      cases haccount'
    · rw [haccounts, lookup_clearedAccount, if_pos rfl, hc.found] at haccount'
      obtain rfl := Option.some.inj haccount'
      obtain ⟨hindex, hbump, hunlock⟩ := hheader account (lookup_mem hc.found)
      exact ⟨hindex, hbump, hunlock⟩
  refine ⟨fetchedAlloc account.data.unlock a, ?_, ?_, hc.unlock, ?_, ?_⟩
  · rw [Reachable.fetch_eq_shown h fun b hb => hheader b (lookup_mem hb), hbefore]
  · rw [hc.receipt]
    rfl
  · exact decide_eq_false hc.positive.ne'
  · rw [Reachable.fetch_eq_shown (h.step hstep) hheader']
    exact hafter.imp (congrArg _) (congrArg _)

end Floor
