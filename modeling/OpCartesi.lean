import OpCartesi.Common.Bytes
import OpCartesi.Common.Exec
import OpCartesi.Common.Relational
import OpCartesi.Common.Along
import OpCartesi.Common.Totals
import OpCartesi.Common.Slices
import OpCartesi.Common.Merkle
import OpCartesi.Common.Ancestry
import OpCartesi.Common.Codes
import OpCartesi.Common.Handles
import OpCartesi.RobinHood.Basic
import OpCartesi.RobinHood.Ops
import OpCartesi.RobinHood.Canonical
import OpCartesi.Drive.Store
import OpCartesi.Drive.Basic
import OpCartesi.Drive.Config
import OpCartesi.Drive.Along
import OpCartesi.Drive.Table
import OpCartesi.Drive.Valid
import OpCartesi.Drive.Book
import OpCartesi.Drive.View
import OpCartesi.Drive.Refine
import OpCartesi.Drive.RefineTokens
import OpCartesi.Drive.Format
import OpCartesi.Drive.Runs
import OpCartesi.Drive.Agree
import OpCartesi.Drive.Geometry
import OpCartesi.Drive.Tokens
import OpCartesi.Drive.Untrusted
import OpCartesi.Drive.Canonical
import OpCartesi.Drive.Probe
import OpCartesi.Drive.Lua
import OpCartesi.AbiDrive.Basic
import OpCartesi.AbiDrive.Registry
import OpCartesi.AbiDrive.Geometry
import OpCartesi.App.Types
import OpCartesi.App.Ledger
import OpCartesi.App.Handlers
import OpCartesi.App.Router
import OpCartesi.App.Journal
import OpCartesi.App.Accounting
import OpCartesi.App.Journaled
import OpCartesi.App.Effects
import OpCartesi.App.Genesis
import OpCartesi.App.Outcome
import OpCartesi.App.Runs
import OpCartesi.App.Inputs
import OpCartesi.App.Nonces
import OpCartesi.App.Replay
import OpCartesi.App.Progress
import OpCartesi.App.Frames
import OpCartesi.App.Attributes
import OpCartesi.App.Inspects
import OpCartesi.App.Simulate
import OpCartesi.App.Rollback
import OpCartesi.App.Conservation
import OpCartesi.App.Supply
import OpCartesi.App.Mint
import OpCartesi.App.Relay
import OpCartesi.App.Theft
import OpCartesi.App.Escrow
import OpCartesi.App.Messages
import OpCartesi.App.Withdrawals
import OpCartesi.Chain.Types
import OpCartesi.Chain.Mempool
import OpCartesi.Chain.OutputTree
import OpCartesi.Chain.TreeMemory
import OpCartesi.Chain.OutputProof
import OpCartesi.Chain.Block
import OpCartesi.Chain.Execution
import OpCartesi.Chain.Store
import OpCartesi.Chain.State
import OpCartesi.Chain.Steps
import OpCartesi.Chain.Forkchoice
import OpCartesi.Chain.Branch
import OpCartesi.Chain.Handles
import OpCartesi.Chain.Linear
import OpCartesi.Chain.Provable
import OpCartesi.Chain.Reports
import OpCartesi.Chain.Assembly
import OpCartesi.Chain.Rejected
import OpCartesi.Chain.Partial
import OpCartesi.Chain.Collisions
import OpCartesi.Chain.Ledger
import OpCartesi.Chain.Import
import OpCartesi.Chain.Lineage
import OpCartesi.Chain.Restore
import OpCartesi.Chain.Life
import OpCartesi.Chain.Restart
import OpCartesi.Chain.AccountProof
import OpCartesi.Chain.Withdrawals
import OpCartesi.Chain.Rebuild
import OpCartesi.Chain.Receipts
import OpCartesi.Chain.Published
import OpCartesi.Contracts.Validator
import OpCartesi.Contracts.Executor
import OpCartesi.Contracts.OutputsRoot
import OpCartesi.Contracts.Trie
