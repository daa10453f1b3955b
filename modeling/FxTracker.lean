import FxTracker.Lib.Dict
import FxTracker.Lib.Lts
import FxTracker.Api.Conflator
import FxTracker.Api.Writer
import FxTracker.Alerts.CommitRule
import FxTracker.Redis.Group
import FxTracker.Worker.AlertRow
import FxTracker.Worker.AlertConflicts
import FxTracker.Worker.AlertDelivery
import FxTracker.Worker.Bars
import FxTracker.Worker.Persister
import FxTracker.Worker.Loop
import FxTracker.Worker.Queue
import FxTracker.Worker.Roles
import FxTracker.Worker.Handover
import FxTracker.Worker.ExactlyOnce
import FxTracker.Worker.LeaseLoss
import FxTracker.Worker.Page
import FxTracker.Worker.Fair
import FxTracker.Worker.Poison
import FxTracker.Worker.Progress
import FxTracker.Alerts.Baseline
import FxTracker.Alerts.Seasonality
import FxTracker.Alerts.Detector
import FxTracker.Alerts.Warmup
import FxTracker.Alerts.Restore
import FxTracker.Alerts.Learning
import FxTracker.Lib.Rollup
import FxTracker.Core.Intervals
import FxTracker.Web.Candles
import FxTracker.Web.MinuteBook
import FxTracker.Web.Parity
import FxTracker.Ingestor.Keyspace
import FxTracker.Ingestor.Adoption
import FxTracker.Ingestor.Isolation
import FxTracker.Lib.Log
import FxTracker.Alerts.Chain
import FxTracker.Ingestor.Leadership
import FxTracker.Ingestor.Succession
import FxTracker.Ingestor.Numbering
import FxTracker.Ingestor.Gaps
import FxTracker.Ingestor.Failover
import FxTracker.Lib.Windows
import FxTracker.Ingestor.Pipeline
import FxTracker.Ingestor.Feed
import FxTracker.Ingestor.Sealing
import FxTracker.Ingestor.Agreement
import FxTracker.Ingestor.Boundary
import FxTracker.Redis.Trim
import FxTracker.Worker.Backlog
import FxTracker.Ingestor.Recovery
import FxTracker.Ingestor.History
import FxTracker.Api.Accounting
import FxTracker.Api.SealDelivery
import FxTracker.Web.Minutes
import FxTracker.Web.Regimes
import FxTracker.Web.Delivery
import FxTracker.Web.Finality
import FxTracker.Lib.Newest
import FxTracker.Web.ZSeries
import FxTracker.Alerts.Scale
import FxTracker.Web.Chart
import FxTracker.Web.Series
import FxTracker.Web.Drawing
import FxTracker.Lib.Tally
import FxTracker.Worker.Returns
import FxTracker.Worker.Schedules
import FxTracker.Api.Snapshot
import FxTracker.Api.NoGap
import FxTracker.Alerts.Blindness
import FxTracker.Lib.Grouping
import FxTracker.Core.Calendar
import FxTracker.Core.Folding
import FxTracker.Api.Bars
import FxTracker.Web.Forming
import FxTracker.Ingestor.Planning
import FxTracker.Ingestor.Asking
import FxTracker.Worker.Drain
import FxTracker.Worker.Sweep
import FxTracker.Redis.Autoclaim
import FxTracker.Worker.Abandoned
import FxTracker.Worker.AlertConstraints
import FxTracker.Core.Welford
import FxTracker.Core.RollingWindow
import FxTracker.Core.Sigma
import FxTracker.Core.RangeEstimators
import FxTracker.Alerts.ClosedForm
import FxTracker.Alerts.Bias
import FxTracker.Lib.SortedSet
import FxTracker.Ingestor.HotCache
import FxTracker.Ingestor.Quota
import FxTracker.Lib.Timeline
import FxTracker.Web.Spans
import FxTracker.Lib.Blocks
import FxTracker.Web.Daily
import FxTracker.Ingestor.Rollups
import FxTracker.Ingestor.Reconnect
import FxTracker.Web.BookRuns
import FxTracker.Core.Sessions
import FxTracker.Alerts.HalfRestore
import FxTracker.Lib.Double
import FxTracker.Ingestor.Frames
import FxTracker.Platform.Takeover
import FxTracker.Worker.UnderLease
import FxTracker.Api.Admission
import FxTracker.Ingestor.Transitions
import FxTracker.Worker.AlertTrail
import FxTracker.Web.Toasts
import FxTracker.Web.OneProvider
import FxTracker.Web.Watchdog
import FxTracker.Api.Readiness
