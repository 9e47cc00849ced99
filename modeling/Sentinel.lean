import Sentinel.Pipeline.Readable
import Sentinel.Pipeline.Stranded
import Sentinel.Pipeline.Bookkeeping
import Sentinel.Pipeline.Finished
import Sentinel.Pipeline.HandOff
import Sentinel.Researcher.Acknowledged
import Sentinel.Executor.Approvals
import Sentinel.Executor.OneOrder
import Sentinel.Executor.Timely
import Sentinel.Executor.Budget
import Sentinel.Storage.ArchiverKept
import Sentinel.Executor.Automatic
import Sentinel.Pipeline.References
import Sentinel.Executor.Resubmission
import Sentinel.Pipeline.Forward
import Sentinel.Analyst.RetrySafe
import Sentinel.Researcher.Accepts
import Sentinel.Executor.LongOnly
import Sentinel.Executor.Fresh
import Sentinel.Notifications.Severity
import Sentinel.Storage.FailedUpsert
import Sentinel.Processing.RawTicks
import Sentinel.App.Subscribed
import Sentinel.App.Resolved
import Sentinel.Pipeline.Waiting
import Sentinel.Executor.Prompt
import Sentinel.Researcher.Evidence
import Sentinel.Analyst.Sizing
import Sentinel.Processing.Cooldown
import Sentinel.Processing.Buffer
import Sentinel.Processing.Sources
import Sentinel.Processing.Enrichment
import Sentinel.Ingestion.Quotes
import Sentinel.Ingestion.Levels
import Sentinel.Ingestion.Tracking
import Sentinel.Analyst.Indicators
import Sentinel.Analyst.Features
import Sentinel.Outcome.Classification
import Sentinel.Outcome.Tracking
import Sentinel.Pipeline.Timestamps
import Sentinel.Processing.Coherence
import Sentinel.Notifications.AnyOrder
import Sentinel.Storage.Pruning
import Sentinel.Pipeline.MessageStore
import Sentinel.App.ActiveAlerts
import Sentinel.Processing.FailingScan
import Sentinel.Executor.Provenance
import Sentinel.Pipeline.Holders
import Sentinel.Notifications.Delivery
import Sentinel.Storage.Retained
import Sentinel.Researcher.Agent
import Sentinel.Ingestion.Events
import Sentinel.Processing.Recent
import Sentinel.Processing.Replayed
import Sentinel.Pipeline.Effort
import Sentinel.Pipeline.Drain
import Sentinel.Outcome.Prices
