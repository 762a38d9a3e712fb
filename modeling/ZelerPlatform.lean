import ZelerPlatform.Acquisition.Discovery
import ZelerPlatform.Acquisition.DiscoveryPass
import ZelerPlatform.Acquisition.DiscoveryRuns
import ZelerPlatform.Acquisition.Enumeration
import ZelerPlatform.Acquisition.RangeCommits
import ZelerPlatform.Acquisition.Ranges
import ZelerPlatform.Acquisition.Subdivision
import ZelerPlatform.Availability.Convergence
import ZelerPlatform.Availability.History
import ZelerPlatform.Availability.Sequential
import ZelerPlatform.Bootstrap.FailedJobs
import ZelerPlatform.Bootstrap.JobRuns
import ZelerPlatform.Bootstrap.Jobs
import ZelerPlatform.Devoluciones.ClaimInventory
import ZelerPlatform.Devoluciones.ClaimsKeyset
import ZelerPlatform.Devoluciones.ClosedDays
import ZelerPlatform.Devoluciones.Fencing
import ZelerPlatform.Devoluciones.ProofVector
import ZelerPlatform.Devoluciones.RunIdentity
import ZelerPlatform.Devoluciones.RunWindows
import ZelerPlatform.Devoluciones.Selection
import ZelerPlatform.Dlq.ArchiveRuns
import ZelerPlatform.Events.Exclusion
import ZelerPlatform.Events.Freshness
import ZelerPlatform.Events.PausedRuns
import ZelerPlatform.Events.Preflight
import ZelerPlatform.Gateway.Classifier
import ZelerPlatform.Gateway.RateLimit
import ZelerPlatform.Gateway.RefreshWorker
import ZelerPlatform.Gateway.Replay
import ZelerPlatform.Gateway.WebhookRuns
import ZelerPlatform.Gateway.Webhooks
import ZelerPlatform.History.ClaimsWindows
import ZelerPlatform.History.DailyBudget
import ZelerPlatform.History.ExecutionLimits
import ZelerPlatform.History.PilotPlan
import ZelerPlatform.History.QuestionScan
import ZelerPlatform.History.WorkIntent
import ZelerPlatform.History.YearHistory
import ZelerPlatform.Imports.StockHours
import ZelerPlatform.Imports.Withdrawals
import ZelerPlatform.Library.ClosedIntervals
import ZelerPlatform.Library.Cursor
import ZelerPlatform.Library.Exec
import ZelerPlatform.Library.Keyset
import ZelerPlatform.Library.Mongo.Value
import ZelerPlatform.Library.PyNumber
import ZelerPlatform.Library.Run
import ZelerPlatform.Library.Tally
import ZelerPlatform.Library.Turns
import ZelerPlatform.Library.Utf8
import ZelerPlatform.Library.Walk
import ZelerPlatform.Markers.ProvenCoverage
import ZelerPlatform.Markers.RecoveryGap
import ZelerPlatform.Modifications.Calls
import ZelerPlatform.Publicador.BatchPublication
import ZelerPlatform.Publicador.BatchRow
import ZelerPlatform.Publicador.BatchSheet
import ZelerPlatform.Publicador.ImageSize
import ZelerPlatform.Publicador.Once
import ZelerPlatform.Recovery.Capacity
import ZelerPlatform.Recovery.Checkpoints
import ZelerPlatform.Recovery.Chunks
import ZelerPlatform.Recovery.Coalescing
import ZelerPlatform.Recovery.Dates
import ZelerPlatform.Recovery.ShipmentRuns
import ZelerPlatform.Repricer.BulkFrames
import ZelerPlatform.Repricer.BulkJobs
import ZelerPlatform.Repricer.BulkRows
import ZelerPlatform.Repricer.BulkRuns
import ZelerPlatform.Repricer.BulkUploads
import ZelerPlatform.Repricer.CatalogCalls
import ZelerPlatform.Repricer.CatalogRules
import ZelerPlatform.Repricer.Engine
import ZelerPlatform.Repricer.RowRules
import ZelerPlatform.Repricer.RuleBands
import ZelerPlatform.Sheets.CatalogSnapshots
import ZelerPlatform.Sheets.CatalogWinning
import ZelerPlatform.Sheets.FullCoverage
import ZelerPlatform.Sheets.FullDiscovery
import ZelerPlatform.Sheets.FullWithdrawals
import ZelerPlatform.Sheets.MessageSweeps
import ZelerPlatform.Sheets.OnboardingSources
import ZelerPlatform.Sheets.PacedRuns
import ZelerPlatform.Sheets.Pacer
import ZelerPlatform.Sheets.PackMessages
import ZelerPlatform.Sheets.PeriodicMessages
import ZelerPlatform.Sheets.Redelivery
import ZelerPlatform.Sheets.RenewalTurns
import ZelerPlatform.Sheets.Settlement
import ZelerPlatform.StockTime.Actions
import ZelerPlatform.StockTime.Plan
import ZelerPlatform.StockTime.Reconciled
import ZelerPlatform.SyncJobs.Replay
