import FloorProgram.State

/-!
# Shared helpers of the instructions

`utils.rs`, and the three pieces of code the instructions repeat: the admin constraint, the
creation of a round account out of the treasury, and the two writes to the pool through a key.
-/

namespace Floor

open Checked Keyed

/-! ## AAT NFTs -/

/-- The account must be the derived mint of the investor; its metadata carries the volume. -/
def verifyAatNftAndGetAllocation (aatNfts : List AatNft) (aatNft : AccountKey)
    (investor : Pubkey) : Except TxError AatNft := do
  ensure (AccountKey.AatNft investor = aatNft) .InvalidAatNft
  okOr (.Program .InvalidAatNft) (lookup nftHolder investor aatNfts)

/-- The NFT that passes is the investor's own. -/
@[simp] lemma verifyAatNftAndGetAllocation_eq_ok {nfts : List AatNft} {key : AccountKey}
    {investor : Pubkey} {nft : AatNft} :
    verifyAatNftAndGetAllocation nfts key investor = .ok nft ↔
      AccountKey.AatNft investor = key ∧ lookup nftHolder investor nfts = some nft := by
  simp only [verifyAatNftAndGetAllocation, bind_eq_ok, ensure_eq_ok, okOr_eq_ok, exists_const]

/-- The associated token constraints of `investor_aat_account`: the signer has a token account of
the NFT.  He has one of his own since it was minted. -/
def associatedAatAccount (ctx : Context) (aatNft : AccountKey) (minted : Bool) :
    Except TxError Unit :=
  require ((AccountKey.AatNft ctx.signer = aatNft ∧ minted = true) ∨
    aatNft ∈ ctx.foreignAatAccounts) .Constraint

@[simp] lemma associatedAatAccount_eq_ok {ctx : Context} {key : AccountKey} {minted : Bool}
    {u : Unit} :
    associatedAatAccount ctx key minted = .ok u ↔
      (AccountKey.AatNft ctx.signer = key ∧ minted = true) ∨ key ∈ ctx.foreignAatAccounts :=
  require_eq_ok

/-! ## Transfer hooks -/

/-- The hook program of a mint, if the mint has a transfer hook with a program set. -/
def getHookProgramId (env : Env) (mint : Pubkey) : Option Pubkey := (env.mint mint).hookProgramId

/-- The eight accounts a transfer hook needs, in order: its configuration, the credential, schema
and program the configuration names, the owner's attestation and whitelist entry, the hook program
and its extra account metas. -/
def validateHookAccounts (remaining : List AccountInfo) (mint : Pubkey) (owner : AccountKey)
    (hookProgramId : Pubkey) : Except TxError Unit :=
  match remaining with
  | [config, credential, schema, sasProgram, attestation, whitelist, hookProgram, extraMeta] => do
    ensure (config.key = .HookConfig mint hookProgramId) .InvalidHookAccounts
    let data ← okOr (.Program .InvalidHookAccounts) config.hookConfig
    ensure (credential.key = .Key data.credential) .InvalidHookAccounts
    ensure (schema.key = .Key data.schema) .InvalidHookAccounts
    ensure (sasProgram.key = .Key data.sasProgram) .InvalidHookAccounts
    ensure (attestation.key = .Attestation data.credential data.schema owner data.sasProgram)
      .InvalidHookAccounts
    ensure (whitelist.key = .Whitelist mint owner hookProgramId) .InvalidHookAccounts
    ensure (hookProgram.key = .Key hookProgramId) .InvalidHookAccounts
    ensure (extraMeta.key = .ExtraAccountMetas mint hookProgramId) .InvalidHookAccounts
  | _ => .error (.Program .InvalidHookAccountsCount)

/-- The validation fails only with one of its two errors. -/
lemma failsOnly_validateHookAccounts {P : TxError → Prop}
    (hcount : P (.Program .InvalidHookAccountsCount))
    (haccounts : P (.Program .InvalidHookAccounts)) (remaining : List AccountInfo) (mint : Pubkey)
    (owner : AccountKey) (hookProgramId : Pubkey) :
    FailsOnly P (validateHookAccounts remaining mint owner hookProgramId) := by
  unfold validateHookAccounts
  split
  · refine failsOnly_bind (failsOnly_ensure fun _ => haccounts) fun _ _ => ?_
    refine failsOnly_bind (failsOnly_okOr fun _ => haccounts) fun _ _ => ?_
    refine failsOnly_bind (failsOnly_ensure fun _ => haccounts) fun _ _ => ?_
    refine failsOnly_bind (failsOnly_ensure fun _ => haccounts) fun _ _ => ?_
    refine failsOnly_bind (failsOnly_ensure fun _ => haccounts) fun _ _ => ?_
    refine failsOnly_bind (failsOnly_ensure fun _ => haccounts) fun _ _ => ?_
    refine failsOnly_bind (failsOnly_ensure fun _ => haccounts) fun _ _ => ?_
    refine failsOnly_bind (failsOnly_ensure fun _ => haccounts) fun _ _ => ?_
    exact failsOnly_ensure fun _ => haccounts
  · exact failsOnly_error hcount

/-! ## Constraints and accounts -/

/-- `constraint = contract_state.admin == admin.key() @ FloorError::Unauthorized`. -/
def adminOnly (ctx : Context) (state : ProgramState) : Except TxError Unit :=
  ensure (state.admin = ctx.signer) .Unauthorized

@[simp] lemma adminOnly_eq_ok {ctx : Context} {state : ProgramState} {u : Unit} :
    adminOnly ctx state = .ok u ↔ state.admin = ctx.signer := ensure_eq_ok

/-- Create a round account of `space` bytes, paid for by the treasury.  An account that already
holds lamports is topped up to the rent and allocated; in both cases the system program refuses an
address that is already in use.  Returns the treasury and the account's lamports. -/
def openRoundAccount (env : Env) (treasury existingLamports space : ℕ) (inUse : Bool) :
    Except TxError (ℕ × ℕ) := do
  let rent := env.minimumBalance space
  let treasury' ← okOr .SystemProgram (checkedSub treasury (rent - existingLamports))
  require (inUse = false) .SystemProgram
  return (treasury', max existingLamports rent)

/-- An account is created if the treasury has what it lacks to its rent. -/
@[simp] lemma openRoundAccount_eq_ok {env : Env} {t e n t' l : ℕ} {inUse : Bool} :
    openRoundAccount env t e n inUse = .ok (t', l) ↔
      env.minimumBalance n - e ≤ t ∧ t - (env.minimumBalance n - e) = t' ∧ inUse = false ∧
        max e (env.minimumBalance n) = l := by
  simp only [openRoundAccount, bind_eq_ok, okOr_eq_ok, checkedSub_eq_some, require_eq_ok,
    pure_eq_ok, Prod.mk.injEq, exists_const]
  constructor
  · rintro ⟨_, ⟨h, rfl⟩, hu, rfl, rfl⟩
    exact ⟨h, rfl, hu, rfl⟩
  · rintro ⟨h, rfl, hu, rfl⟩
    exact ⟨_, ⟨h, rfl⟩, hu, rfl, rfl⟩

/-- The creation of an account fails only in the system program. -/
lemma failsOnly_openRoundAccount {P : TxError → Prop} (h : P .SystemProgram) (env : Env)
    (treasury existingLamports space : ℕ) (inUse : Bool) :
    FailsOnly P (openRoundAccount env treasury existingLamports space inUse) := by
  refine failsOnly_bind (failsOnly_okOr fun _ => h) fun _ _ => ?_
  exact failsOnly_bind (failsOnly_require fun _ => h) fun _ _ => failsOnly_pure _

end Floor
