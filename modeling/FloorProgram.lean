import FloorProgram.Core.Checked
import FloorProgram.Core.Loop
import FloorProgram.Core.Keyed
import FloorProgram.Core.ProRata
import FloorProgram.Core.Search
import FloorProgram.Core.Transition
import FloorProgram.State
import FloorProgram.Utils
import FloorProgram.Instructions.StartRound
import FloorProgram.Instructions.SellWaln
import FloorProgram.Instructions.CloseRound
import FloorProgram.Instructions.Lobby
import FloorProgram.Instructions.AatNft
import FloorProgram.Instructions.ClaimWaln
import FloorProgram.Instructions.Admin
import FloorProgram.Program
import FloorProgram.Lemmas.Pool
import FloorProgram.Lemmas.StartRound
import FloorProgram.Lemmas.Settlement
import FloorProgram.Lemmas.CloseRound
import FloorProgram.Invariant
import FloorProgram.Effects
import FloorProgram.Preservation
import FloorProgram.Refinement
import FloorProgram.Settling
import FloorProgram.Accounting.Lobby
import FloorProgram.Accounting.Conservation
import FloorProgram.Accounting.Solvency
import FloorProgram.Accounting.Charges
import FloorProgram.Accounting.Ledger
import FloorProgram.Rounds.Progress
import FloorProgram.Rounds.Allocation
import FloorProgram.Rounds.Ending
import FloorProgram.Rounds.Claims
import FloorProgram.Rounds.Isolation
import FloorProgram.Core.Pruning
import FloorProgram.Starting.Eligibility
import FloorProgram.Starting.Locks
import FloorProgram.Starting.Order
import FloorProgram.Rounds.ForcedClose
import FloorProgram.Pool.FiniteMap
import FloorProgram.Pool.WithdrawLock
import FloorProgram.Pool.Volumes
import FloorProgram.Rounds.Participants
import FloorProgram.Rounds.Arithmetic
import FloorProgram.Rounds.FullRound
import FloorProgram.Rounds.Events
import FloorProgram.Rounds.Splitting
import FloorProgram.Rounds.Cancelling
import FloorProgram.Core.Bytes
import FloorProgram.Codec.Borsh
import FloorProgram.Codec.Sdk
import FloorProgram.Codec.Accounts
import FloorProgram.Core.Simulation
import FloorProgram.Core.Tally
import FloorProgram.Market.Spec
import FloorProgram.Market.Abstraction
import FloorProgram.Market.Refinement
import FloorProgram.Market.Governance
import FloorProgram.Core.Diamond
import FloorProgram.Rounds.ClaimOrder
import FloorProgram.Core.Interleaving
import FloorProgram.Pool.Parties
import FloorProgram.Rounds.Archive
import FloorProgram.Accounting.Rent
import FloorProgram.Core.Slots
import FloorProgram.Pool.Account
import FloorProgram.Panics
import FloorProgram.Core.Attempts
import FloorProgram.Rounds.AutoStart
import FloorProgram.Core.Decimal
import FloorProgram.Core.Lockstep
import FloorProgram.Codec.Metadata
import FloorProgram.Codec.Stored
import FloorProgram.Core.Layout
import FloorProgram.Codec.ZeroCopy
import FloorProgram.Codec.Logs
import FloorProgram.Codec.ClaimView
import FloorProgram.Pool.Exits
