import NotifyQueue.Lib.Run
import NotifyQueue.Lib.Table
import NotifyQueue.Lib.SortedSet
import NotifyQueue.Lib.Rounding
import NotifyQueue.Lib.Lease
import NotifyQueue.Lib.Handoff
import NotifyQueue.Lib.Retry
import NotifyQueue.Lib.Budget
import NotifyQueue.Lib.UniqueIndex
import NotifyQueue.Lib.Calendar
import NotifyQueue.Lib.Text
import NotifyQueue.Lib.Markup
import NotifyQueue.Model.Data
import NotifyQueue.Model.Statements
import NotifyQueue.Model.Redis
import NotifyQueue.Model.Process
import NotifyQueue.Model.System
import NotifyQueue.Model.Shutdown
import NotifyQueue.Model.Views
import NotifyQueue.Model.Page
import NotifyQueue.Model.Submission
import NotifyQueue.Model.Simulation
import NotifyQueue.Model.Client
import NotifyQueue.Model.Retry
import NotifyQueue.Model.Calls
import NotifyQueue.Model.Iteration
import NotifyQueue.Model.Datetime
import NotifyQueue.Model.Posting
import NotifyQueue.Job.Rows
import NotifyQueue.Job.Awaits
import NotifyQueue.Job.Moves
import NotifyQueue.Job.Effect
import NotifyQueue.Job.Holdings
import NotifyQueue.Job.Copies
import NotifyQueue.Job.Clocks
import NotifyQueue.Job.Tick
import NotifyQueue.Job.Calls
import NotifyQueue.Safety.Exclusive
import NotifyQueue.Safety.Fence
import NotifyQueue.Safety.Attempts
import NotifyQueue.Safety.Letters
import NotifyQueue.Safety.Counts
import NotifyQueue.Safety.Books
import NotifyQueue.Safety.ExactlyOnce
import NotifyQueue.Safety.QueueEntry
import NotifyQueue.Safety.Shape
import NotifyQueue.Safety.Locks
import NotifyQueue.Safety.Webhooks
import NotifyQueue.Safety.AuditTrail
import NotifyQueue.Safety.Outcomes
import NotifyQueue.Safety.RateLimit
import NotifyQueue.Safety.Deliveries
import NotifyQueue.Safety.Scores
import NotifyQueue.Safety.Deferral
import NotifyQueue.Safety.Submission
import NotifyQueue.Safety.CrashRecovery
import NotifyQueue.Safety.Expiry
import NotifyQueue.Safety.BestClaim
import NotifyQueue.Safety.Sweep
import NotifyQueue.Safety.Drain
import NotifyQueue.Safety.StaleEntries
import NotifyQueue.Safety.Onward
import NotifyQueue.Safety.Recovery
import NotifyQueue.Safety.WebhookCall
import NotifyQueue.Safety.Heartbeat
import NotifyQueue.Safety.Backoff
import NotifyQueue.Safety.Priority
import NotifyQueue.Safety.Client
import NotifyQueue.Safety.Reports
import NotifyQueue.Safety.Retries
import NotifyQueue.Safety.Panel
import NotifyQueue.Safety.Page
import NotifyQueue.Safety.Windows
import NotifyQueue.Safety.Iterations
import NotifyQueue.Safety.Serving
import NotifyQueue.Safety.Storable
import NotifyQueue.Safety.Shutdown
import NotifyQueue.Lib.Descent
import NotifyQueue.Safety.Restart
import NotifyQueue.Safety.Backlog
