import HomeLab.Lib.Timestamp
import HomeLab.Lib.Json
import HomeLab.ActionCore.Key
import HomeLab.ActionJournal.Store
import HomeLab.ActionJournal.Journal
import HomeLab.ActionJournal.Ledger
import HomeLab.ActionJournal.Encoding
import HomeLab.ActionJournal.Refinement
import HomeLab.ActionJournal.Runs
import HomeLab.ActionJournal.Guarantees
import HomeLab.ActionCore.Worker
import HomeLab.ActionJournal.Attempts
import HomeLab.Execution.World
import HomeLab.Execution.Effects
import HomeLab.UploadState.Machine
import HomeLab.UploadState.Runs
import HomeLab.UploadState.Guarantees
import HomeLab.UploadLedger.Ledger
import HomeLab.UploadLoop.Pacing
import HomeLab.Lib.Segments
import HomeLab.LogObs.Batch
import HomeLab.History.Coverage
import HomeLab.History.Samples
import HomeLab.History.Store
import HomeLab.History.Maintenance
import HomeLab.History.Evidence
import HomeLab.History.Ranges
import HomeLab.History.Retention
import HomeLab.History.Tiling
import HomeLab.History.Rollups
import HomeLab.Series.Build
import HomeLab.Series.Compaction
import HomeLab.ActionProtocol.Claims
import HomeLab.ActionBudget.Budget
import HomeLab.ActionProtocol.Snapshot
import HomeLab.ActionBroker.Policy
import HomeLab.ActionBroker.Permissions
import HomeLab.Lifecycle.Endpoint
import HomeLab.Lifecycle.Stop
import HomeLab.ActionProtocol.Envelope
import HomeLab.ActionWorker.Conversation
import HomeLab.ActionWorker.Latch
import HomeLab.Connected.Config
import HomeLab.Connected.Transition
import HomeLab.Connected.Chains
import HomeLab.Enrollment.Store
import HomeLab.Enrollment.World
import HomeLab.Enrollment.Protocol
import HomeLab.Enrollment.Once
import HomeLab.Enrollment.Reopen
import HomeLab.Background.Service
import HomeLab.Background.Recovery
import HomeLab.Background.Operations
import HomeLab.Background.Guard
import HomeLab.Background.Exclusion
import HomeLab.ActionProtocol.Admin
import HomeLab.ActionProtocol.Codec
import HomeLab.Lib.Utf8
import HomeLab.Lib.RawJson
import HomeLab.ActionProtocol.Wire
import HomeLab.ActionProtocol.Identity
import HomeLab.History.Merging
import HomeLab.Lib.Arrays
import HomeLab.History.Slices
import HomeLab.Lib.Cells
import HomeLab.LogObs.Summary
import HomeLab.History.Projection
import HomeLab.History.Conservation
import HomeLab.Lib.Ranking
import HomeLab.LogObs.Collector
import HomeLab.LogObs.Runs
import HomeLab.Lib.Regex
import HomeLab.Lib.Unicode
import HomeLab.Workload.Text
import HomeLab.Containers.Inventory
import HomeLab.Observation.Snapshot
import HomeLab.Workload.Projection
import HomeLab.Workload.Fitting
import HomeLab.Workload.Sections
import HomeLab.Lib.JsonText
import HomeLab.Workload.Documents
import HomeLab.Workload.Encoding
import HomeLab.Containers.Collector
import HomeLab.Containers.Runs
import HomeLab.Workload.Longest
