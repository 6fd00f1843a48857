import Attest.Library.Split
import Attest.Library.HashTree
import Attest.Library.Fallible
import Attest.Library.Json
import Attest.Publication.Merkle
import Attest.Publication.Inclusion
import Attest.Publication.Consistency
import Attest.Publication.Tiles
import Attest.Publication.TileReads
import Attest.Publication.TileProofs
import Attest.Trust.Time
import Attest.Trust.DateText
import Attest.Trust.Standing
import Attest.Trust.Store
import Attest.Trust.Bundle
import Attest.Trust.Keys
import Attest.Trust.Examine
import Attest.Trust.Import
import Attest.Trust.Specs
import Attest.Trust.Entries
import Attest.Trust.Judgement
import Attest.Trust.Runs
import Attest.Trust.Revocation
import Attest.Trust.Signing
import Attest.Trust.Loading
import Attest.Trust.Acceptance
import Attest.Trust.Rollback
import Attest.Trust.Handover
import Attest.Trust.Merge
import Attest.Trust.Copies
import Attest.Library.StableSort
import Attest.Storage.ReceiptFormat
import Attest.Library.Base64
import Attest.Verify.Checks
import Attest.Verify.Signatures
import Attest.Interop.Import
import Attest.Verify.Undated
import Attest.Verify.ExplicitStore
import Attest.Library.Text
import Attest.Publication.Note
import Attest.Publication.Checkpoints
import Attest.Publication.Record
import Attest.Publication.Assessment
import Attest.Library.Process
import Attest.Publication.Client
import Attest.Publication.Disclosure
import Attest.Publication.Publishers
import Attest.Storage.CausalLedger
import Attest.Archive.Verification
import Attest.Archive.Format
import Attest.Evidence.Proofs
import Attest.Evidence.Linkage
import Attest.Trust.Observers
import Attest.Trust.News
import Attest.Trust.Failures
import Attest.Hashing.FileSystem
import Attest.Library.SortedMap
import Attest.Library.SelfDelimiting
import Attest.Hashing.Manifest
import Attest.Executor.Pipeline
import Attest.Sandbox.Command
import Attest.Sandbox.Backing
import Attest.Executor.Steps
import Attest.Executor.Schedule
import Attest.Executor.Causal
import Attest.Evidence.Inventory
import Attest.Executor.Receipt
import Attest.Executor.Artifacts
import Attest.Executor.Controls
import Attest.Archive.Export
import Attest.Archive.RoundTrip
import Attest.Executor.Drivers
import Attest.Evidence.Capsules
import Attest.Evidence.Verification
import Attest.Evidence.Packing
import Attest.Evidence.Handoff
import Attest.Executor.Encoding
import Attest.Executor.Reproducibility
import Attest.Library.Reader
import Attest.Timestamp.Der
import Attest.Timestamp.Token
import Attest.Verify.Stamped
import Attest.Verify.Policy
import Attest.Library.BreadthFirst
import Attest.Storage.CausalPaths
import Attest.Executor.Validation
import Attest.Executor.CacheHistory
import Attest.Library.Interleaving
import Attest.Executor.CacheFiles
import Attest.Executor.CacheRace
import Attest.Hashing.Resolution
import Attest.Hashing.Straight
import Attest.Evidence.Agreement
import Attest.Trust.Producing
import Attest.Library.Kahn
import Attest.Storage.LedgerOrder
import Attest.Storage.Chains
import Attest.Library.DepthFirst
import Attest.Storage.Statistics
import Attest.Executor.SortTables
import Attest.Library.Layers
import Attest.Executor.Analysis
import Attest.Identity.Der
import Attest.Timestamp.Signers
import Attest.Timestamp.Usage
import Attest.Library.Base128
import Attest.Timestamp.ObjectIdentifiers
import Attest.Identity.Source
import Attest.Library.Words
import Attest.Image.Signing
import Attest.Image.SupplyChain
import Attest.Image.Manifests
import Attest.Hashing.Copies
import Attest.Executor.Snapshots
import Attest.Publication.TileNames
import Attest.Publication.Ranges
import Attest.Storage.UniqueReceipts
import Attest.Sandbox.Environment
import Attest.Executor.CacheCleanup
import Attest.Library.Lossy
import Attest.Archive.Bounded
import Attest.Library.Utf8
import Attest.Sandbox.FilesystemSecurity
import Attest.Executor.SignedFiles
import Attest.Executor.WrapOutcome
import Attest.Executor.Wrap
import Attest.Library.Inodes
import Attest.Executor.InputGuard
import Attest.Executor.CapsuleRun
import Attest.Library.JsonText
import Attest.Identity.Workflow
import Attest.Interop.Projection
import Attest.Interop.Importing
import Attest.Interop.Imported
import Attest.Interop.Exporting
import Attest.Interop.RoundTrip
import Attest.Verify.Recompute
import Attest.Verify.WrapRecompute
import Attest.Verify.Rerun
import Attest.Library.RelyGuarantee
import Attest.Trust.Keypair
import Attest.Library.Gathering
import Attest.Hashing.Declarations
