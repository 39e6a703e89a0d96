import CiRunner.State.Record

/-! What the lifecycle of a request makes of errors and of GitHub jobs: which
errors are worth another attempt and when, and what a job tells about the request
it belongs to. -/

namespace CiRunner.Lifecycle

open CiRunner.State Text

/-! ### Errors -/

/-- What can be wrong with the runner group of a request. -/
inductive RunnerGroupCode where
  | notSupported | notFound | repositoryDenied | timeout | rateLimited | permissionDenied
  | unavailable
  deriving DecidableEq, Repr

namespace RunnerGroupCode

def text : RunnerGroupCode → String
  | .notSupported => "runner_group_not_supported"
  | .notFound => "runner_group_not_found"
  | .repositoryDenied => "runner_group_repository_denied"
  | .timeout => "runner_group_timeout"
  | .rateLimited => "runner_group_rate_limited"
  | .permissionDenied => "runner_group_permission_denied"
  | .unavailable => "runner_group_unavailable"

def retryable : RunnerGroupCode → Bool
  | .timeout | .rateLimited | .unavailable => true
  | _ => false

end RunnerGroupCode

/-- Why a default template cannot be resolved. -/
inductive TemplateReason where
  | missing | duplicate | privateTemplate | nonRunnable | emptyID | noCatalog
  deriving DecidableEq, Repr

def TemplateReason.text : TemplateReason → String
  | .missing => "missing"
  | .duplicate => "duplicate"
  | .privateTemplate => "private"
  | .nonRunnable => "non_runnable"
  | .emptyID => "empty_template_id"
  | .noCatalog => "catalog_unavailable"

/-- An error, as far as it is told apart. -/
inductive Err where
  | message (text : String)
  | deadlineExceeded (text : String)
  | runnerGroup (code : RunnerGroupCode) (message : String)
  | templateResolution (reason : TemplateReason) (text : String)
  | exitedWithoutJob (detail : String)
  deriving Repr

namespace Err

def text : Err → String
  | .message text => text
  | .deadlineExceeded text => text
  | .runnerGroup code detail => code.text ++ ": " ++ detail
  | .templateResolution _ text => text
  | .exitedWithoutJob detail =>
    if detail = "" then "runner process exited before accepting a job"
    else "runner process exited before accepting a job: " ++ detail

end Err

def isGitHubRunnerBusyCleanup (err : Err) : Bool :=
  let msg := toLower err.text
  contains msg "github remove runner: status 422" && contains msg "currently running a job" &&
    contains msg "cannot be deleted"

/-- The code of an error and whether it is worth another attempt. -/
def classifyRetryableError (stage : String) : Err → String × Bool
  | .runnerGroup code _ => (code.text, code.retryable)
  | .templateResolution reason _ => (reason.text, false)
  | .exitedWithoutJob _ => ("runner_exited_without_job", true)
  | .deadlineExceeded _ => ("timeout", true)
  | .message text =>
    let msg := toLower text
    if isGitHubRunnerBusyCleanup (.message text) then ("github_runner_busy", true)
    else if contains msg "failed to place sandbox" then ("sandbox_capacity", true)
    else if contains msg "secondary rate limit" then ("github_secondary_rate_limit", true)
    else if contains msg "status 429" then ("http_rate_limited", true)
    else if contains msg "status 408" || contains msg "status 409" || contains msg "status 425" then
      ("http_retryable_status", true)
    else if contains msg "status 5" then
      if contains stage "github" then ("github_server_error", true)
      else ("backend_server_error", true)
    else if contains msg "timeout" || contains msg "timed out" || contains msg "i/o timeout" ||
        contains msg "connection reset" || contains msg "temporary" || contains msg "eof" then
      ("temporary_network_error", true)
    else if contains msg "status 401" || contains msg "status 403" then ("auth_error", false)
    else (stage, false)

/-- Failures that put the request back into the queue however often it was tried. -/
def isQueueDeferFailure (code : String) : Bool :=
  code = "sandbox_capacity" || code = "http_rate_limited" || code = "github_secondary_rate_limit"

/-- The error of a stop that means that there is no sandbox any more. -/
def isSandboxGone (err : Err) : Bool :=
  contains err.text "status 404" || contains err.text "Sandbox can't be resumed" ||
    contains err.text "SandboxNotFound"

def appendError (current extra : String) : String :=
  let current := trimSpace current
  let extra := trimSpace extra
  if current = "" then extra else if extra = "" then current else current ++ "; " ++ extra

/-! ### Settings and delays -/

structure Settings where
  maxConcurrentRunners : Nat
  retryMaxAttempts : Nat
  retryBaseDelay : Time
  retryMaxDelay : Time
  workerID : String
  workerLeaseTTL : Time
  sandboxTimeout : Time
  sandboxCreateTimeout : Time
  sandboxStopTimeout : Time
  runnerIdleTimeout : Time
  /-- The region of a sandbox service. -/
  sandboxRegionForAPIURL : String → String

variable (cfg : Settings)

/-- A delay that doubles with every retry, up to the maximum. -/
def doubledDelay (max : Time) : Nat → Time → Time
  | 0, delay => delay
  | n + 1, delay => if max ≤ delay * 2 then max else doubledDelay max n (delay * 2)

def nextRetryAt (retryCount : Nat) (now : Time) : Time :=
  now + min (doubledDelay cfg.retryMaxDelay (retryCount - 1) cfg.retryBaseDelay) cfg.retryMaxDelay

/-- The delay while a job waits is doubled until it covers the age of the request; the first number
bounds the doublings. -/
def coveringDelay (max age : Nat) : Nat → Nat → Nat
  | 0, delay => delay
  | n + 1, delay =>
    if 0 < delay ∧ delay < max ∧ delay ≤ age then coveringDelay max age n (delay * 2) else delay

theorem coveringDelay_done (max age n delay : Nat) (h : max ≤ delay + n ∨ delay = 0) :
    ¬ (0 < coveringDelay max age n delay ∧ coveringDelay max age n delay < max ∧
      coveringDelay max age n delay ≤ age) := by
  induction n generalizing delay with
  | zero => simp only [coveringDelay]; omega
  | succ n ih =>
    simp only [coveringDelay]
    split
    · apply ih
      omega
    · assumption

def waitingDelay (age : Time) : Time :=
  min (coveringDelay cfg.retryMaxDelay age cfg.retryMaxDelay cfg.retryBaseDelay) cfg.retryMaxDelay

/-! ### Jobs -/

/-- A workflow job as GitHub reports it; `id` 0 is no job. -/
structure WorkflowJob where
  id : Nat := 0
  name : String := ""
  status : String := ""
  conclusion : String := ""
  runnerName : String := ""
  deriving Repr

/-- The name that marks a runner which has taken a job that is not known yet. -/
def runnerJobStartedMarker : String := "__runner_job_started__"

def shouldRecordAssignedJob (st : RunnerState) (job : WorkflowJob) : Bool :=
  job.id ≠ 0 && (st.assignedJobID ≠ job.id || st.assignedJobName ≠ job.name)

def recordAssignedJob (st : RunnerState) (job : WorkflowJob) : RunnerState :=
  if shouldRecordAssignedJob st job then
    { st with assignedJobID := job.id, assignedJobName := job.name }
  else st

/-- A text that is kept unless a new one is known. -/
def newerText (old new : String) : String := if new = "" then old else new

/-- What a terminal job makes of the result that the request has; `none` if it is nothing new. -/
def newJobResult (st : RunnerState) (job : WorkflowJob) : Option JobResult :=
  if job.id = 0 ∨ st.workflowJobID = 0 ∨ job.id ≠ st.workflowJobID then none else
  let conclusion := trimSpace job.conclusion
  let status := if trimSpace job.status = "" ∧ conclusion ≠ "" then "completed"
    else trimSpace job.status
  if ¬ (equalFold status "completed" ∨ conclusion ≠ "") then none else
  let result : JobResult :=
    ⟨newerText st.jobResult.name (trimSpace job.name), newerText st.jobResult.status status,
      newerText st.jobResult.conclusion conclusion,
      newerText st.jobResult.runnerName (trimSpace job.runnerName), st.jobResult.observedAt⟩
  if result = st.jobResult ∧ ((result.name = "" ∧ result.status = "" ∧ result.conclusion = "" ∧
      result.runnerName = "") ∨ result.observedAt ≠ 0) then none
  else some result

/-- The result of a terminal job on the request, and whether it is news. -/
def retainWorkflowJobResult (st : RunnerState) (job : WorkflowJob) (observedAt : Time) :
    RunnerState × Bool :=
  match newJobResult st job with
  | none => (st, false)
  | some result =>
    ({ st with jobResult := { result with observedAt := observedAt } },
      result ≠ st.jobResult ∨ st.jobResult.observedAt ≠ observedAt)

/-- The job must not stop this runner: whose job it runs is open, or it runs another. -/
def workflowJobStopConflictsWithAssignment (st : RunnerState) (job : WorkflowJob) : Bool :=
  if job.id = 0 then false
  else if trimSpace job.runnerName ≠ "" ∧ trimSpace job.runnerName = trimSpace st.runnerName then
    false
  else if st.assignedJobID ≠ 0 then st.assignedJobID ≠ job.id
  else st.assignedJobName = runnerJobStartedMarker && st.workflowJobID = job.id

def workflowJobMismatch (st : RunnerState) (job : WorkflowJob) : Bool :=
  st.workflowJobID ≠ 0 && job.id ≠ 0 && st.workflowJobID ≠ job.id

def isWorkflowJobWaiting (status : String) : Bool :=
  status = "waiting" || status = "pending" || status = "requested"

def workflowJobWaitCode : String := "github_job_waiting"

def workflowJobStatusCode (what : String) : String := "github_job_status_" ++ what

def isWindows (labels : List String) : Bool :=
  labels.any fun label => equalFold (trimSpace label) "windows"

end CiRunner.Lifecycle
