import FloorProgram.Core.Decimal
import FloorProgram.Core.Lockstep
import FloorProgram.Settling

/-!
# AAT NFTs as the chain keeps them

The mint of an AAT NFT carries its volume in its token metadata, as the decimal text of the field
`aat_volume`.  `mint_aat_nft` and `update_aat_volume` write the text, and
`verify_aat_nft_and_get_allocation` searches the fields and parses it.  The rest of the development
keeps the number.

* `MetadataProgram` — what the token program does to the metadata of a mint.
* `execText` — the program on texts.
* `map_execText` — it does what the program on numbers does, errors included.
* `metadata_refines` — over whole runs.
-/

namespace Floor

open Checked Keyed

variable {env : Env} {w w' : World} {ctx : Context} {r : Receipt}

/-! ## Metadata -/

/-- `TokenMetadata`. -/
structure TokenMetadata where
  name : String
  symbol : String
  uri : String
  additionalMetadata : List (String × String)

/-- The value of the first field with this key. -/
def TokenMetadata.field (key : String) (m : TokenMetadata) : Option String :=
  (lookup Prod.fst key m.additionalMetadata).map Prod.snd

/-- The metadata instructions of the token program.  A field that has been updated has its new
value. -/
structure MetadataProgram where
  initializeMetadata : String → String → String → TokenMetadata
  updateField : String → String → TokenMetadata → TokenMetadata
  field_updateField : ∀ key value m, (updateField key value m).field key = some value

/-- Rewrite a field, or append it. -/
def TokenMetadata.setKeyValue (key value : String) (m : TokenMetadata) : TokenMetadata :=
  { m with
    additionalMetadata :=
      if (m.field key).isSome then
        modifyFirst Prod.fst key (fun p => (p.1, value)) m.additionalMetadata
      else m.additionalMetadata ++ [(key, value)] }

lemma TokenMetadata.field_setKeyValue (key value : String) (m : TokenMetadata) :
    (m.setKeyValue key value).field key = some value := by
  have hkey : ∀ p : String × String, (p.1, value).1 = p.1 := fun _ => rfl
  unfold TokenMetadata.setKeyValue
  split_ifs with hfield
  · rw [TokenMetadata.field, Option.isSome_map] at hfield
    obtain ⟨p, hp⟩ := Option.isSome_iff_exists.mp hfield
    simp only [TokenMetadata.field, lookup_modifyFirst hkey, if_pos, hp, Option.map_some]
  · rw [TokenMetadata.field, Option.isSome_map, Bool.not_eq_true, Option.isSome_eq_false_iff,
      Option.isNone_iff_eq_none] at hfield
    simp only [TokenMetadata.field, lookup_append_self (a := (key, value)) rfl hfield,
      Option.map_some]

/-- The interface of the token metadata library. -/
def splTokenMetadata : MetadataProgram where
  initializeMetadata name symbol uri := { name, symbol, uri, additionalMetadata := [] }
  updateField := TokenMetadata.setKeyValue
  field_updateField := TokenMetadata.field_setKeyValue

/-- The number that the field `aat_volume` denotes, if it does. -/
def TokenMetadata.volume (m : TokenMetadata) : Option ℕ :=
  (m.field "aat_volume").bind (Decimal.parse 64)

/-- The mint of an investor's AAT NFT, and the balance of the investor's token account. -/
structure AatMint where
  investor : Pubkey
  metadata : TokenMetadata
  amount : ℕ

abbrev mintHolder (m : AatMint) : Pubkey := m.investor

/-- The NFT, with its volume read. -/
def AatMint.nft (m : AatMint) : AatNft :=
  { investor := m.investor, aatVolume := m.metadata.volume.getD 0, amount := m.amount }

/-- A world with its NFTs as the chain keeps them. -/
structure TextWorld where
  state : ProgramState
  pool : InvestorPool
  usdcVault : ℕ
  walnVault : ℕ
  treasury : ℕ
  roundRecords : List (Account RoundRecord)
  roundLockedWaln : List (Account RoundLockedWaln)
  aatMints : List AatMint

/-- The world with the volumes read. -/
def TextWorld.world (s : TextWorld) : World :=
  { state := s.state, pool := s.pool, usdcVault := s.usdcVault, walnVault := s.walnVault,
    treasury := s.treasury, roundRecords := s.roundRecords, roundLockedWaln := s.roundLockedWaln,
    aatNfts := s.aatMints.map AatMint.nft }

/-- A world with mints for its NFTs. -/
def World.withMints (w : World) (mints : List AatMint) : TextWorld :=
  { state := w.state, pool := w.pool, usdcVault := w.usdcVault, walnVault := w.walnVault,
    treasury := w.treasury, roundRecords := w.roundRecords, roundLockedWaln := w.roundLockedWaln,
    aatMints := mints }

/-- Every volume can be read. -/
def TextWorld.Readable (s : TextWorld) : Prop := ∀ m ∈ s.aatMints, m.metadata.volume.isSome = true

/-! ## The handlers that read or write a volume -/

/-- `verify_aat_nft_and_get_allocation`: the mint, and the volume it carries. -/
def verifyText (mints : List AatMint) (aatNft : AccountKey) (investor : Pubkey) :
    Except TxError (AatMint × ℕ) := do
  ensure (AccountKey.AatNft investor = aatNft) .InvalidAatNft
  let mint ← okOr (.Program .InvalidAatNft) (lookup mintHolder investor mints)
  let value ← okOr (.Program .InvalidAatNft) (mint.metadata.field "aat_volume")
  let volume ← okOr (.Program .InvalidAatNft) (Decimal.parse 64 value)
  return (mint, volume)

/-- `deposit_usdc`. -/
def depositUsdcText (ctx : Context) (usdcMint : Pubkey) (aatNft : AccountKey) (usdcAmount : ℕ)
    (s : TextWorld) : Except TxError (TextWorld × Receipt) := do
  associatedAatAccount ctx aatNft (lookup mintHolder ctx.signer s.aatMints).isSome
  ensure (s.state.frozen = false) .ContractFrozen
  ensure (0 < usdcAmount) .ZeroAmount
  ensure (usdcMint = s.state.usdcMint) .InvalidMint
  let (mint, volume) ← verifyText s.aatMints aatNft ctx.signer
  ensure (0 < volume) .ZeroAatAllocation
  ensure (mint.amount = 1) .NoAatNft
  ensure (s.pool.count < MAX_INVESTORS ∨
    (lookup byInvestor ctx.signer s.pool.investors).isSome = true) .InvestorPoolFull
  let usdcVault ← transferIn ctx s.usdcVault usdcAmount
  let investors ← depositInto ctx.now s.state.usdcWithdrawLockSeconds ctx.signer volume usdcAmount
    s.pool.investors
  let lobby ← arith (checkedAdd 64 s.state.totalUsdcInLobby usdcAmount)
  return ({ s with
      state := { s.state with totalUsdcInLobby := lobby }
      pool := { investors := investors }
      usdcVault := usdcVault },
    { usdcIn := usdcAmount })

/-- `mint_aat_nft`: the metadata is initialized, and the volume written as text. -/
def mintAatNftText (tm : MetadataProgram) (ctx : Context) (investor : Pubkey) (aatVolume : ℕ)
    (s : TextWorld) : Except TxError (TextWorld × Receipt) := do
  adminOnly ctx s.state
  ensure (0 < aatVolume) .InvalidParameter
  ensure (s.state.frozen = false) .ContractFrozen
  let newTotal ← arith (checkedAdd 64 s.state.totalAatVolume aatVolume)
  ensure (newTotal ≤ MAX_TOTAL_AAT_VOLUME) .WalnAllocationLimitExceeded
  require ((lookup mintHolder investor s.aatMints).isSome = false) .SystemProgram
  require (ctx.cpiAccepts = true) .TokenProgram
  let metadata :=
    tm.updateField "aat_volume" aatVolume.repr (tm.initializeMetadata "AAT NFT" "AAT" "")
  return ({ s with
      state := { s.state with totalAatVolume := newTotal }
      aatMints := s.aatMints ++ [{ investor := investor, metadata := metadata, amount := 1 }] },
    {})

/-- A mint with another volume. -/
def AatMint.revalue (tm : MetadataProgram) (volume : ℕ) (m : AatMint) : AatMint :=
  { m with metadata := tm.updateField "aat_volume" volume.repr m.metadata }

/-- `update_aat_volume`: the text is rewritten. -/
def updateAatVolumeText (tm : MetadataProgram) (ctx : Context) (investor : Pubkey)
    (newVolume : ℕ) (s : TextWorld) : Except TxError (TextWorld × Receipt) := do
  adminOnly ctx s.state
  ensure (s.state.roundStarted = false) .FundsLocked
  let (_, oldVolume) ← verifyText s.aatMints (.AatNft investor) investor
  let rest ← arith (checkedSub s.state.totalAatVolume oldVolume)
  let newTotal ← arith (checkedAdd 64 rest newVolume)
  ensure (newTotal ≤ MAX_TOTAL_AAT_VOLUME) .WalnAllocationLimitExceeded
  require (ctx.cpiAccepts = true) .TokenProgram
  let aatMints := modifyFirst mintHolder investor (AatMint.revalue tm newVolume) s.aatMints
  let investors := modifyFirst byInvestor investor (fun r => { r with aatVolume := newVolume })
    s.pool.investors
  return ({ s with
      state := { s.state with totalAatVolume := newTotal }
      aatMints := aatMints
      pool := { investors := investors } },
    {})

/-- Execute one instruction on texts. -/
def execText (tm : MetadataProgram) (env : Env) (ctx : Context) (i : Instruction) (s : TextWorld) :
    Except TxError (TextWorld × Receipt) :=
  match i with
  | .DepositUsdc m n a => depositUsdcText ctx m n a.toNat s
  | .MintAatNft k v => mintAatNftText tm ctx k v.toNat s
  | .UpdateAatVolume k v => updateAatVolumeText tm ctx k v.toNat s
  | i => do
    let (w, r) ← exec env ctx i s.world
    return (w.withMints s.aatMints, r)

/-! ## Reading what was written -/

variable {tm : MetadataProgram} {s s' : TextWorld} {mints : List AatMint} {k : Pubkey} {v : ℕ}

/-- **The volume that was written is read.** -/
lemma volume_updateField (hv : v < 2 ^ 64) (m : TokenMetadata) :
    (tm.updateField "aat_volume" v.repr m).volume = some v := by
  rw [TokenMetadata.volume, tm.field_updateField, Option.bind_some, Decimal.parse_repr hv]

lemma nft_revalue (hv : v < 2 ^ 64) (m : AatMint) :
    (m.revalue tm v).nft = { m.nft with aatVolume := v } := by
  rw [AatMint.revalue, AatMint.nft, volume_updateField hv]
  rfl

lemma lookup_nfts : lookup nftHolder k (mints.map AatMint.nft)
    = (lookup mintHolder k mints).map AatMint.nft := by
  rw [lookup, List.find?_map]
  rfl

lemma nfts_modifyFirst (hv : v < 2 ^ 64) :
    (modifyFirst mintHolder k (AatMint.revalue tm v) mints).map AatMint.nft
      = modifyFirst nftHolder k (fun n => { n with aatVolume := v }) (mints.map AatMint.nft) := by
  induction mints with
  | nil => rfl
  | cons m mints ih =>
      by_cases hk : m.investor = k
      · simp only [modifyFirst, hk, if_true, List.map_cons, nft_revalue hv]
        simp [AatMint.nft, hk]
      · simp only [modifyFirst, hk, if_false, List.map_cons, ih]
        simp [AatMint.nft, hk]

/-- **The check of an NFT** finds the mint and reads its volume. -/
lemma verifyText_eq (hread : ∀ m ∈ mints, m.metadata.volume.isSome = true) (key : AccountKey) :
    verifyText mints key k = (do
      ensure (AccountKey.AatNft k = key) .InvalidAatNft
      let mint ← okOr (.Program .InvalidAatNft) (lookup mintHolder k mints)
      return (mint, mint.nft.aatVolume)) := by
  refine bind_congr fun _ => bind_congr_ok fun mint hmint => ?_
  have hsome := hread mint (lookup_mem (okOr_eq_ok.mp hmint))
  obtain ⟨volume, hvolume⟩ := Option.isSome_iff_exists.mp hsome
  obtain ⟨value, hvalue, hparse⟩ := Option.bind_eq_some_iff.mp hvolume
  simp only [hvalue, hparse, okOr, ok_bind, AatMint.nft, hvolume, Option.getD_some]

/-- The check on numbers is the one on texts. -/
lemma verifyAatNft_nfts (hread : ∀ m ∈ mints, m.metadata.volume.isSome = true) (key : AccountKey) :
    verifyAatNftAndGetAllocation (mints.map AatMint.nft) key k
      = (fun p => p.1.nft) <$> verifyText mints key k := by
  rw [verifyText_eq hread, verifyAatNftAndGetAllocation, lookup_nfts]
  simp only [map_bind, map_pure]
  refine bind_congr fun _ => ?_
  cases lookup mintHolder k mints <;> rfl

/-! ## One instruction -/

/-- The outcome of an instruction, with the volumes read. -/
def textOutcome (p : TextWorld × Receipt) : World × Receipt := (p.1.world, p.2)

lemma map_depositUsdcText (hread : s.Readable) (m : Pubkey) (n : AccountKey) (a : ℕ) :
    textOutcome <$> depositUsdcText ctx m n a s = depositUsdc ctx m n a s.world := by
  have hverify : verifyAatNftAndGetAllocation s.world.aatNfts n ctx.signer
      = (fun p => p.1.nft) <$> verifyText s.aatMints n ctx.signer := verifyAatNft_nfts hread n
  have hlookup : lookup nftHolder ctx.signer s.world.aatNfts
      = (lookup mintHolder ctx.signer s.aatMints).map AatMint.nft := lookup_nfts
  simp only [depositUsdcText, depositUsdc, hverify, hlookup, Option.isSome_map,
    verifyText_eq hread, map_bind, map_pure, bind_assoc, pure_bind]
  rfl

lemma map_mintAatNftText (k : Pubkey) (hv : v < 2 ^ 64) :
    textOutcome <$> mintAatNftText tm ctx k v s = mintAatNft ctx k v s.world := by
  have hlookup : lookup nftHolder k s.world.aatNfts
      = (lookup mintHolder k s.aatMints).map AatMint.nft := lookup_nfts
  simp only [mintAatNftText, mintAatNft, hlookup, Option.isSome_map, map_bind, map_pure]
  refine bind_congr fun _ => bind_congr fun _ => bind_congr fun _ => bind_congr fun _ =>
    bind_congr fun _ => bind_congr fun _ => bind_congr fun _ => ?_
  simp only [textOutcome, TextWorld.world, List.map_append, List.map_cons, List.map_nil,
    AatMint.nft, volume_updateField hv, Option.getD_some]

lemma map_updateAatVolumeText (hread : s.Readable) (k : Pubkey) (hv : v < 2 ^ 64) :
    textOutcome <$> updateAatVolumeText tm ctx k v s = updateAatVolume ctx k v s.world := by
  have hverify : verifyAatNftAndGetAllocation s.world.aatNfts (.AatNft k) k
      = (fun p => p.1.nft) <$> verifyText s.aatMints (.AatNft k) k := verifyAatNft_nfts hread _
  simp only [updateAatVolumeText, updateAatVolume, hverify, verifyText_eq hread, map_bind, map_pure,
    bind_assoc, pure_bind]
  refine bind_congr fun _ => bind_congr fun _ => bind_congr fun _ => bind_congr fun _ =>
    bind_congr fun _ => bind_congr fun _ => bind_congr fun _ => bind_congr fun _ => ?_
  simp only [textOutcome, TextWorld.world, nfts_modifyFirst hv]

/-- The handlers that read or write a volume. -/
def Instruction.handlesVolume : Instruction → Bool
  | .DepositUsdc _ _ _ | .MintAatNft _ _ | .UpdateAatVolume _ _ => true
  | _ => false

lemma execText_of_other {i : Instruction} (hi : i.handlesVolume = false) :
    execText tm env ctx i s = exec env ctx i s.world >>= fun p =>
      pure (p.1.withMints s.aatMints, p.2) := by
  cases i <;> first | rfl | cases hi

/-- The other handlers leave the NFTs alone. -/
lemma exec_aatNfts {i : Instruction} (h : Inv env w)
    (hopen : w.state.roundStarted = true → RoundOpen (w.decimals env) w.state)
    (hi : i.handlesVolume = false) (hx : exec env ctx i w = .ok (w', r)) :
    w'.aatNfts = w.aatNfts := by
  have hopened : ∀ {w₁ : World}, Opened env w w₁ → w₁.aatNfts = w.aatNfts := by
    rintro w₁ (⟨-, rfl⟩ | ⟨-, _, _, _, -, rfl⟩) <;> rfl
  have hpaid : ∀ {w₁ w₂ : World} {maxWaln walnAmount usdcOut : ℕ},
      Paid env maxWaln walnAmount usdcOut w₁ w₂ → w₂.aatNfts = w₁.aatNfts := by
    intro w₁ w₂ maxWaln walnAmount usdcOut hp
    rw [hp.world]
  have hauto : ∀ {w₃ : World}, AutoStarted env w₃ w' → w'.aatNfts = w₃.aatNfts := by
    rintro w₃ (⟨_, _, _, -, rfl⟩ | ⟨rfl, -⟩) <;> rfl
  cases exec_effect h hopen hx with
  | Deposit | Join | Mint | UpdateVolume => cases hi
  | Close _ _ hsettled => exact hsettled.aatNfts
  | Sell ho hp _ => exact (hpaid hp).trans (hopened ho)
  | SellFull ho hp _ hsettled _ hnext =>
      exact (hauto hnext).trans (hsettled.aatNfts.trans ((hpaid hp).trans (hopened ho)))
  | _ => rfl

/-- **Texts do what numbers do**, with the same errors. -/
theorem map_execText (i : Instruction) (h : Inv env s.world)
    (hopen : s.world.state.roundStarted = true → RoundOpen (s.world.decimals env) s.world.state)
    (hread : s.Readable) :
    textOutcome <$> execText tm env ctx i s = exec env ctx i s.world := by
  cases hi : i.handlesVolume with
  | true =>
      cases i with
      | DepositUsdc m n a => exact map_depositUsdcText hread m n a.toNat
      | MintAatNft k v => exact map_mintAatNftText k v.toNat_lt
      | UpdateAatVolume k v => exact map_updateAatVolumeText hread k v.toNat_lt
      | _ => cases hi
  | false =>
      rw [execText_of_other hi, map_bind]
      cases hx : exec env ctx i s.world with
      | error e => rfl
      | ok p =>
          obtain ⟨w', r⟩ := p
          have hnfts := exec_aatNfts h hopen hi hx
          simp only [ok_bind, map_pure, textOutcome, TextWorld.world, World.withMints]
          have hmints : s.aatMints.map AatMint.nft = w'.aatNfts := hnfts.symm
          rw [hmints]
          rfl

/-- An instruction keeps the volumes readable. -/
lemma execText_readable {i : Instruction} (hread : s.Readable)
    (hx : execText tm env ctx i s = .ok (s', r)) : s'.Readable := by
  cases hi : i.handlesVolume with
  | true =>
      cases i with
      | DepositUsdc m n a =>
          simp only [execText, depositUsdcText, bind_eq_ok, Prod.exists, pure_eq_ok, Prod.mk.injEq]
            at hx
          obtain ⟨_, -, _, -, _, -, _, -, _, _, -, _, -, _, -, _, -, _, -, _, -, _, -, rfl, -⟩ := hx
          exact hread
      | MintAatNft k v =>
          simp only [execText, mintAatNftText, bind_eq_ok, pure_eq_ok, Prod.mk.injEq] at hx
          obtain ⟨_, -, _, -, _, -, _, -, _, -, _, -, _, -, rfl, -⟩ := hx
          intro m hm
          rcases List.mem_append.mp hm with hm | hm
          · exact hread m hm
          · obtain rfl := List.mem_singleton.mp hm
            simp only [volume_updateField v.toNat_lt, Option.isSome_some]
      | UpdateAatVolume k v =>
          simp only [execText, updateAatVolumeText, verifyText, bind_eq_ok, okOr_eq_ok, Prod.exists,
            pure_eq_ok, Prod.mk.injEq] at hx
          obtain ⟨_, -, _, -, _, _, ⟨_, -, mint, hmint, _, -, _, -, -, -⟩, _, -, _, -, _, -, _, -,
            rfl, -⟩ := hx
          intro m hm
          rcases mem_modifyFirst hmint hm with hm | rfl
          · exact hread m hm
          · simp only [AatMint.revalue, volume_updateField v.toNat_lt, Option.isSome_some]
      | _ => cases hi
  | false =>
      rw [execText_of_other hi] at hx
      simp only [bind_eq_ok, Prod.exists, pure_eq_ok, Prod.mk.injEq] at hx
      obtain ⟨w', r', -, rfl, -⟩ := hx
      exact hread

/-! ## Runs -/

/-- A successful transaction on texts. -/
def TextStep (tm : MetadataProgram) (env : Env) (s : TextWorld) (tx : Tx) (s' : TextWorld) : Prop :=
  execText tm env tx.ctx tx.instr s = .ok (s', tx.receipt)

/-- A fresh deployment has minted nothing. -/
def TextInitial (env : Env) (s : TextWorld) : Prop := ∃ w, Initial env w ∧ s = w.withMints []

/-- The worlds the program gets to on texts. -/
abbrev TextReachable (tm : MetadataProgram) (env : Env) : TextWorld → Prop :=
  Transition.Reachable (TextInitial env) (TextStep tm env)

lemma Initial.aatNfts_eq_nil (h : Initial env w) : w.aatNfts = [] := by
  obtain ⟨ctx, usdcMint, walnMint, price, size, lock, h⟩ := h
  simp only [initializeHandler, bind_eq_ok, pure_eq_ok] at h
  obtain ⟨_, -, _, -, _, -, _, -, _, -, _, -, rfl⟩ := h
  rfl

lemma Initial.world_withMints (h : Initial env w) : (w.withMints []).world = w := by
  have hnfts := h.aatNfts_eq_nil
  cases w
  simp_all [World.withMints, TextWorld.world]

lemma Reachable.textOutcome_eq (hw : Reachable env s.world) (hread : s.Readable) (ctx : Context)
    (i : Instruction) : textOutcome <$> execText tm env ctx i s = exec env ctx i s.world := by
  obtain ⟨hinv, hopen⟩ := reachable_inv hw
  exact map_execText i hinv hopen hread

/-- Texts keep in step with numbers, and stay readable. -/
lemma metadata_lockstep (tm : MetadataProgram) (env : Env) :
    Transition.Lockstep (TextInitial env) (TextStep tm env) (Initial env) (Step env)
      TextWorld.world TextWorld.Readable where
  start := by
    rintro s ⟨w, hw, rfl⟩
    refine ⟨?_, fun m hm => by cases hm⟩
    rwa [hw.world_withMints]
  start_lift := fun w hw => ⟨_, ⟨w, hw, rfl⟩, hw.world_withMints⟩
  forth := by
    rintro s ⟨ctx, i, r⟩ s' hw hread hstep
    exact ⟨(ok_iff_of_map_eq (Reachable.textOutcome_eq hw hread ctx i)).mpr ⟨s', hstep, rfl⟩,
      execText_readable hread hstep⟩
  back := by
    rintro s ⟨ctx, i, r⟩ w hw hread hstep
    exact (ok_iff_of_map_eq (Reachable.textOutcome_eq hw hread ctx i)).mp hstep

/-- **The number is the text.**  The worlds the program gets to with the volumes as numbers are
those it gets to with the volumes as text in the metadata.  Every text there can be read, and every
transaction has the same outcome on both, whether it succeeds or fails. -/
theorem metadata_refines (tm : MetadataProgram) (env : Env) :
    (∀ w, Reachable env w ↔ ∃ s, TextReachable tm env s ∧ s.world = w) ∧
    ∀ s, TextReachable tm env s → s.Readable ∧
      ∀ ctx i, textOutcome <$> execText tm env ctx i s = exec env ctx i s.world := by
  have hl := metadata_lockstep tm env
  refine ⟨fun w => hl.reachable_iff, fun s hs => ?_⟩
  obtain ⟨hw, hread⟩ := hl.reachable hs
  exact ⟨hread, Reachable.textOutcome_eq hw hread⟩

/-- Three NFTs are minted and used for deposits. -/
theorem metadata_refines_threeInvestors :
    ∃ s, TextReachable splTokenMetadata (sampleEnv 9) s ∧
      s.world.aatNfts.map AatNft.aatVolume = [100000, 100000, 100000] ∧ s.Readable ∧
      ∀ ctx i, textOutcome <$> execText splTokenMetadata (sampleEnv 9) ctx i s
        = exec (sampleEnv 9) ctx i s.world := by
  obtain ⟨w₀, h, w, hw₀, hh, hcheck⟩ := exists_sample_history 9 1000000000 2000000000
    (threeInvestors 100000 5000000000)
    (fun _ _ w => decide (w.aatNfts.map AatNft.aatVolume = [100000, 100000, 100000]))
    (by decide +kernel)
  obtain ⟨hworlds, htexts⟩ := metadata_refines splTokenMetadata (sampleEnv 9)
  obtain ⟨s, hs, rfl⟩ := (hworlds w).mp (History.reachable hh hw₀)
  exact ⟨s, hs, of_decide_eq_true hcheck, htexts s hs⟩

end Floor
