import CiRunner.Admin.CursorText
import CiRunner.Admin.Polling
import CiRunner.Admin.RequestPages
import CiRunner.Admin.Requests
import CiRunner.Admission.Deliveries
import CiRunner.Admission.Idempotence
import CiRunner.Base64
import CiRunner.Capacity.Admission
import CiRunner.Capacity.Checks
import CiRunner.Capacity.CounterSpecs
import CiRunner.Capacity.Counters
import CiRunner.Capacity.Invariant
import CiRunner.Capacity.Knowledge
import CiRunner.Capacity.Safety
import CiRunner.Capacity.Steps
import CiRunner.Catalog.Agreement
import CiRunner.Deployments.Admission
import CiRunner.Deployments.Apart
import CiRunner.Deployments.Attempts
import CiRunner.Deployments.Calls
import CiRunner.Deployments.ConfigPaths
import CiRunner.Deployments.Cores
import CiRunner.Deployments.Discipline
import CiRunner.Deployments.Events
import CiRunner.Deployments.HandlerOutline
import CiRunner.Deployments.Handlers
import CiRunner.Deployments.History
import CiRunner.Deployments.Idempotency
import CiRunner.Deployments.Invariant
import CiRunner.Deployments.Knowledge
import CiRunner.Deployments.Lists
import CiRunner.Deployments.Outcome
import CiRunner.Deployments.Quota
import CiRunner.Deployments.Record
import CiRunner.Deployments.Retention
import CiRunner.Deployments.Runs
import CiRunner.Deployments.Sandboxes
import CiRunner.Deployments.Scheduler
import CiRunner.Deployments.Serve
import CiRunner.Deployments.Sources
import CiRunner.Deployments.Steps
import CiRunner.Deployments.StopOutline
import CiRunner.Deployments.Stops
import CiRunner.Deployments.Store
import CiRunner.Deployments.Updates
import CiRunner.Deployments.WorkPages
import CiRunner.Deployments.Worker
import CiRunner.Deployments.WorkerOutline
import CiRunner.Json
import CiRunner.Lifecycle.Accounts
import CiRunner.Lifecycle.Announcements
import CiRunner.Lifecycle.Calls
import CiRunner.Lifecycle.Cores
import CiRunner.Lifecycle.Delays
import CiRunner.Lifecycle.Edits
import CiRunner.Lifecycle.Evidence
import CiRunner.Lifecycle.Exits
import CiRunner.Lifecycle.Failures
import CiRunner.Lifecycle.Fencing
import CiRunner.Lifecycle.InFlight
import CiRunner.Lifecycle.Knowledge
import CiRunner.Lifecycle.Locks
import CiRunner.Lifecycle.LoopOutline
import CiRunner.Lifecycle.Loops
import CiRunner.Lifecycle.Provenance
import CiRunner.Lifecycle.Queue
import CiRunner.Lifecycle.Reconciliation
import CiRunner.Lifecycle.Rules
import CiRunner.Lifecycle.Runs
import CiRunner.Lifecycle.StartOutline
import CiRunner.Lifecycle.Starts
import CiRunner.Lifecycle.Steps
import CiRunner.Lifecycle.StopOutline
import CiRunner.Lifecycle.StopRetries
import CiRunner.Lifecycle.Stops
import CiRunner.Lifecycle.Writes
import CiRunner.Output.Capture
import CiRunner.Output.Limiter
import CiRunner.Refcount.Registry
import CiRunner.Sponsorship.Approvals
import CiRunner.Sponsorship.Store
import CiRunner.State.Access
import CiRunner.State.CompareAndSwap
import CiRunner.State.Contention
import CiRunner.State.Context
import CiRunner.State.Leases
import CiRunner.State.Listing
import CiRunner.State.PullRequestLinks
import CiRunner.State.Record
import CiRunner.State.Requests
import CiRunner.State.Retry
import CiRunner.State.Status
import CiRunner.Tables.Batches
import CiRunner.Tables.Eviction
import CiRunner.Tables.Groups
import CiRunner.Tables.Keyed
import CiRunner.Tables.Merges
import CiRunner.Tables.Pages
import CiRunner.Tables.Transactions
import CiRunner.Tables.Versioned
import CiRunner.Tables.Walks
import CiRunner.Terminal.Events
import CiRunner.Terminal.Idle
import CiRunner.Terminal.Session
import CiRunner.Text
import CiRunner.Text.Cuts
import CiRunner.Text.Numbers
import CiRunner.Text.Paths
import CiRunner.Threads.Machine
import CiRunner.Threads.Outline
import CiRunner.Threads.Sequential
import CiRunner.Users.AccessCache
import CiRunner.Users.JobGroupOrder
import CiRunner.Users.JobGroups
import CiRunner.Users.RunnerHistory
import CiRunner.Utf8
