import EldChain.Library.FiniteMaps
import EldChain.Library.Framing
import EldChain.Library.KeyedSets
import EldChain.Library.Json
import EldChain.Library.Runs
import EldChain.Library.HashTrees
import EldChain.Library.Regions
import EldChain.Library.Fallible
import EldChain.Library.Selection
import EldChain.Values
import EldChain.Namespaces
import EldChain.TextRules
import EldChain.Types
import EldChain.Bincode
import EldChain.Library.Base64
import EldChain.Outside
import EldChain.SerdeJson
import EldChain.Codec
import EldChain.Validation
import EldChain.Storage
import EldChain.Envelope
import EldChain.AppHash
import EldChain.Responses
import EldChain.Processors
import EldChain.Challenges
import EldChain.DeliverTx
import EldChain.Blocks
import EldChain.Snapshots
import EldChain.Commit
import EldChain.FrontEnd
import EldChain.Chain
import EldChain.Mempool
import EldChain.CapacityTree
import EldChain.SlotAllocator
import EldChain.CapacityManager
import EldChain.MissingContent
import EldChain.ContentSync
import EldChain.SyncCoordinator
import EldChain.Fees
import EldChain.TxBuilders
import EldChain.PostSignatures
import EldChain.Pinboard
import EldChain.PinboardGc
import EldChain.Ledger
import EldChain.Outcomes
import EldChain.Invariants
import EldChain.Steps
import EldChain.CommitLaws
import EldChain.Reachable
import EldChain.Rebuild
import EldChain.RewardTotals
import EldChain.ProofCompleteness
import EldChain.RateLimiter
import EldChain.EventListing
import EldChain.TrieLeaves
import EldChain.SnapshotRoundTrip
import EldChain.Restart
import EldChain.NodeStart
import EldChain.Identities
import EldChain.ReplayProtection
import EldChain.Openings
import EldChain.ChallengeOutcomes
import EldChain.CapacitySteps
import EldChain.IssuedChallenges
import EldChain.EpochListing
import EldChain.EpochRecords
import EldChain.AnswerableChallenges
import EldChain.ActiveValidators
import EldChain.ValidatorSync
import EldChain.StakeRegistry
import EldChain.StagedPosts
import EldChain.CommitProgress
import EldChain.Atomicity
import EldChain.Conservation
import EldChain.WireForms
import EldChain.CodecRoundTrip
import EldChain.AcceptedForms
import EldChain.DeclaredForms
import EldChain.WrittenForms
import EldChain.DeclaredTypes
import EldChain.StructureChecks
import EldChain.MempoolAdmission
import EldChain.SlotSpecs
import EldChain.SectionSpecs
import EldChain.CapacityMirror
import EldChain.CapacityAllocation
import EldChain.ProofVerdicts
import EldChain.ProverVerifier
import EldChain.SlotOwnership
import EldChain.SlotRoundTrip
import EldChain.CapacityFaults
import EldChain.ConcurrentCalls
import EldChain.SlotLedger
import EldChain.MissingLists
import EldChain.ContentRetention
import EldChain.StorageSoundness
import EldChain.ChallengeVerdicts
import EldChain.VerdictAgreement
import EldChain.CapacityRegistry
import EldChain.CapacityLeases
import EldChain.NamespaceOwners
import EldChain.PostAuthorisation
import EldChain.BuilderFees
import EldChain.StoredAccounts
import EldChain.ProofSubmitter
import EldChain.SubmitterNonce
import EldChain.PinboardRows
import EldChain.PinboardHistory
import EldChain.PinboardGcSafety
import EldChain.PinboardCommit
import EldChain.SigningBytes
import EldChain.TreeUpdates
import EldChain.SlotTiling
import EldChain.ProviderSelection
import EldChain.SlashAccounting
import EldChain.TransactionListing
import EldChain.IndexCounters
import EldChain.IndexerProgress
import EldChain.LeaseArithmetic
import EldChain.CadoPaths
import EldChain.PathForms
import EldChain.StorageKeys
import EldChain.StoredObjects
import EldChain.CommittedObjects
import EldChain.CoinText
import EldChain.Library.JsonText
import EldChain.JsonGate
import EldChain.FeeSchedules
import EldChain.PostRoundTrip
import EldChain.PinboardPaths
import EldChain.Library.PrefixScans
import EldChain.PrefixQueries
import EldChain.TagQueries
import EldChain.Library.Readers
import EldChain.SnapshotCodec
import EldChain.CadoStore
import EldChain.SnapshotStore
import EldChain.SnapshotListing
import EldChain.Library.SharedRows
import EldChain.PathIsolation
import EldChain.Library.Machines
import EldChain.SnapshotChunks
import EldChain.SnapshotArchive
import EldChain.SnapshotManager
import EldChain.StateSync
import EldChain.SnapshotServing
import EldChain.SnapshotTasks
import EldChain.Library.Traces
import EldChain.Replicas
import EldChain.Crashes
import EldChain.ContentPeers
import EldChain.GenuineContents
import EldChain.TruthfulPeers
import EldChain.ContentExchange
import EldChain.PinboardFeeds
import EldChain.PinboardPeers
import EldChain.RootUpdates
