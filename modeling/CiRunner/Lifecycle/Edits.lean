import CiRunner.Capacity.Counters
import CiRunner.Lifecycle.Failures

/-! What the operations of the lifecycle do to the state of a request before they
write it back. -/

namespace CiRunner.Lifecycle

open CiRunner.State Text

/-- A sandbox with a runner process in it. The provider's ids have no spaces around them. -/
structure StartResult where
  sandboxID : String
  pid : Nat
  resolvedTemplateID : String
  templateVersion : String
  runnerVersion : String
  trimmed : trimSpace sandboxID = sandboxID

/-- How a runner process ended. -/
structure ExitResult where
  exitCode : Int := 0
  stdout : String := ""
  stderr : String := ""
  error : String := ""
  effectiveRunnerVersion : String := ""

/-- The sandbox and process that an exit is reported for. -/
structure RunnerAttemptIdentity where
  sandboxID : String
  processPID : Nat
  deriving DecidableEq, Repr

namespace RunnerAttemptIdentity

def specified (a : RunnerAttemptIdentity) : Bool := trimSpace a.sandboxID ≠ "" || a.processPID ≠ 0

def matchesState (a : RunnerAttemptIdentity) (st : RunnerState) : Bool :=
  trimSpace a.sandboxID ≠ "" && a.processPID ≠ 0 && a.sandboxID = st.sandboxID &&
    a.processPID = st.processPID

end RunnerAttemptIdentity

variable (cfg : Settings)

/-! ### Failures -/

def clearFailure (st : RunnerState) : RunnerState :=
  { st with
    error := ""
    failureStage := none
    failureReason := "" }

def clearLastError (st : RunnerState) : RunnerState :=
  { st with
    lastErrorCode := ""
    lastErrorMessage := ""
    lastErrorRetryable := false }

/-- Back to the queue, for another attempt. -/
def requeueForRetry (st : RunnerState) (retryCount : Nat) (nextRetryAt : Time) : RunnerState :=
  { st.clearRunnerEnvironmentSnapshot.clearSandboxServiceSnapshot with
    status := .queued
    retryCount := retryCount
    nextRetryAt := nextRetryAt
    creatingAt := 0
    runningAt := 0
    stoppingAt := 0
    failedAt := 0 }

def applyFailure (st : RunnerState) (stage : Stage) (err : Err) (allowRetry : Bool)
    (now : Time) : RunnerState :=
  let code := (classifyRetryableError stage.text err).1
  let retryable := (classifyRetryableError stage.text err).2
  let st : RunnerState :=
    { st.clearLease with
      error := err.text
      failureStage := some stage
      failureReason := code
      lastErrorCode := code
      lastErrorMessage := err.text
      lastErrorRetryable := retryable
      sandboxID := ""
      processPID := 0
      completedAt := 0 }
  if allowRetry && retryable && isQueueDeferFailure code then
    let retryCount :=
      if st.retryCount < cfg.retryMaxAttempts then st.retryCount + 1 else st.retryCount
    requeueForRetry st retryCount (nextRetryAt cfg (max retryCount 1) now)
  else if allowRetry && retryable && st.retryCount < cfg.retryMaxAttempts then
    requeueForRetry st (st.retryCount + 1) (nextRetryAt cfg (st.retryCount + 1) now)
  else { st with status := .failed, nextRetryAt := 0 }

/-! ### Starts -/

/-- The attempt time of a start on Windows, later than that of any earlier attempt. -/
def windowsAttemptAt (st : RunnerState) (now : Time) : Time :=
  if now ≤ st.lastAttemptAt then st.lastAttemptAt + 1 else now

/-- The request as a start writes it before it creates anything. -/
def beginCreating (st : RunnerState) (workerID : String) (now : Time) : RunnerState :=
  let st := if startsWith st.lastErrorCode "runner_capacity_" then
    { clearLastError st with nextRetryAt := 0 } else st
  { st with
    status := .creating
    lastAttemptAt := if isWindows st.labels then windowsAttemptAt st now else st.lastAttemptAt
    leaseOwner := workerID
    leaseExpiresAt := now + cfg.workerLeaseTTL }

/-- The request once its runner is started. -/
def adoptRunner (st : RunnerState) (result : StartResult) (region templateID : String) :
    RunnerState :=
  { st.clearLease with
    status := .running
    sandboxID := result.sandboxID
    environment := { st.environment with
      sandboxRegion := region
      resolvedTemplateID := newerText (trimSpace templateID) (trimSpace result.resolvedTemplateID)
      templateVersion := trimSpace result.templateVersion
      runnerVersion := trimSpace result.runnerVersion }
    processPID := result.pid
    error := "" }

/-- The request once its runner is found again after a restart. -/
def adoptRecovered (st : RunnerState) (result : StartResult) (region : String) : RunnerState :=
  { (clearLastError (clearFailure st)).clearLease with
    status := .running
    sandboxID := result.sandboxID
    environment := { st.environment with
      sandboxRegion := newerText region st.environment.sandboxRegion
      resolvedTemplateID :=
        newerText (trimSpace result.resolvedTemplateID) st.environment.resolvedTemplateID
      templateVersion := newerText (trimSpace result.templateVersion) st.environment.templateVersion
      runnerVersion := newerText (trimSpace result.runnerVersion) st.environment.runnerVersion }
    processPID := result.pid }

/-- The job is over before a sandbox was made for it. -/
def completeSkipped (st : RunnerState) (job : WorkflowJob) (now : Time) : RunnerState :=
  let st := (retainWorkflowJobResult (recordAssignedJob st job) job now).1
  { (clearFailure st).clearLease with
    status := .completed
    completedAt := now
    nextRetryAt := 0 }

def setServiceSnapshot (st : RunnerState) (service : ServiceSnapshot) : RunnerState :=
  { st with service := service }

/-- No capacity: wait in the queue. -/
def deferQueued (st : RunnerState) (stage : Capacity.CapacityStage) (next : Time) : RunnerState :=
  let dimension := match stage with
    | .global => "global"
    | .profile => "profile"
    | .account => "account"
    | .repository => "repository"
  { st.clearLease.clearSandboxServiceSnapshot with
    lastErrorCode := "runner_capacity_" ++ dimension
    lastErrorMessage := "Waiting for " ++ dimension ++ " Runner concurrency capacity"
    lastErrorRetryable := true
    nextRetryAt := next }

/-- No sponsored capacity: back to the queue. -/
def deferCreating (st : RunnerState) (next : Time) : RunnerState :=
  { st.clearLease.clearRunnerEnvironmentSnapshot.clearSandboxServiceSnapshot with
    status := .queued
    creatingAt := 0
    nextRetryAt := next }

/-- The creation was interrupted and has left no sandbox. -/
def requeueInterrupted (st : RunnerState) : RunnerState :=
  { (clearLastError (clearFailure st)).clearLease.clearRunnerEnvironmentSnapshot
      |>.clearSandboxServiceSnapshot with
    status := .queued
    sandboxID := ""
    processPID := 0
    nextRetryAt := 0
    creatingAt := 0
    runningAt := 0
    stoppingAt := 0 }

/-! ### Stops -/

def setTerminationSource (st : RunnerState) (source : TerminationSource) : RunnerState :=
  if st.terminationSource.isSome then st else { st with terminationSource := some source }

def markRunnerCleanupStarted (st : RunnerState) (startedAt : Time) : RunnerState :=
  { st with status := .stopping, stoppingAt := RunnerState.firstTime st.stoppingAt startedAt }

/-- The version of a copy after its write. -/
def nextVersion (st : RunnerState) : RunnerState := { st with version := st.version + 1 }

/-- Stop again later, where the error allows it. -/
def scheduleStopRetry (st : RunnerState) (err : Err) (now : Time) : Option RunnerState :=
  let code := (classifyRetryableError "stop" err).1
  if !(classifyRetryableError "stop" err).2 || cfg.retryMaxAttempts ≤ st.retryCount then none
  else some
    { st with
      retryCount := st.retryCount + 1
      status := .stopping
      failureStage := some .stop
      failureReason := code
      lastErrorCode := code
      lastErrorMessage := err.text
      lastErrorRetryable := true
      error := err.text
      nextRetryAt := nextRetryAt cfg (st.retryCount + 1) now }

/-- Remove the runner from GitHub later, where the error allows it. -/
def scheduleCleanupRetry (st : RunnerState) (err : Err) (now : Time) : Option RunnerState :=
  let code := (classifyRetryableError "github_cleanup" err).1
  if !(classifyRetryableError "github_cleanup" err).2 then none
  else if !isGitHubRunnerBusyCleanup err && cfg.retryMaxAttempts ≤ st.retryCount then none
  else
    let retryCount :=
      if st.retryCount < cfg.retryMaxAttempts then st.retryCount + 1 else st.retryCount
    let st : RunnerState := if st.failureStage = none then
      { st with failureStage := some .cleanup, failureReason := code, error := err.text } else st
    some
      { st with
        retryCount := retryCount
        status := .stopping
        lastErrorCode := code
        lastErrorMessage := err.text
        lastErrorRetryable := true
        nextRetryAt := nextRetryAt cfg retryCount now }

/-- The one-time configuration of a Windows runner could not be removed. -/
def retainJITCleanup (st : RunnerState) (now : Time) : RunnerState :=
  { (setTerminationSource (markRunnerCleanupStarted st now) .failureCleanup).clearLease with
    failureStage := some .cleanup
    failureReason := "jit_cleanup_pending"
    error := "JIT Runner cleanup pending"
    nextRetryAt := nextRetryAt cfg 1 now }

/-- A failure while the request is being stopped or cleaned up. -/
def failWith (st : RunnerState) (stage : Stage) (reason error : String) : RunnerState :=
  { st with
    status := .failed
    failureStage := some stage
    failureReason := reason
    error := error }

/-- The request goes back to the queue for its own job, another one having used the runner. -/
def requeueMismatched (st : RunnerState) : RunnerState :=
  { (clearLastError (clearFailure st)).clearLease.clearRunnerEnvironmentSnapshot
      |>.clearSandboxServiceSnapshot with
    status := .queued
    sandboxID := ""
    processPID := 0
    assignedJobID := 0
    assignedJobName := ""
    terminationSource := none
    runnerExitCode := none
    nextRetryAt := 0
    creatingAt := 0
    runningAt := 0
    stoppingAt := 0
    completedAt := 0
    failedAt := 0
    jobResult := {} }

/-- The request goes back to the queue once its one-time configuration is removed. -/
def requeueAfterJITCleanup (st : RunnerState) : RunnerState :=
  { (clearLastError (clearFailure st)).clearLease with
    status := .queued
    sandboxID := ""
    processPID := 0
    nextRetryAt := 0
    stoppingAt := 0 }

/-- The end of a stop: failed where an earlier failure led to it, completed otherwise. -/
def finishStop (st : RunnerState) (now : Time) : RunnerState :=
  let st : RunnerState :=
    if st.failureStage ≠ none ∧ st.failureStage ≠ some .cleanup then
      { st with status := .failed, failedAt := now }
    else { clearFailure st with status := .completed, completedAt := now }
  { clearLastError st with nextRetryAt := 0 }

/-! ### Exits -/

def setEffectiveRunnerVersion (st : RunnerState) (result : ExitResult) : RunnerState :=
  if st.environment.effectiveRunnerVersion = "" then
    { st with environment := { st.environment with
      effectiveRunnerVersion := trimSpace result.effectiveRunnerVersion } }
  else st

def runnerExitMessage (result : ExitResult) : String :=
  let detail := newerText (newerText (trimSpace result.stdout) (trimSpace result.error))
    (trimSpace result.stderr)
  let message := "runner process exited with code " ++ toString result.exitCode
  if detail = "" then message else message ++ ": " ++ detail

/-- The stream of the process has ended while GitHub reports the runner as busy. -/
def keepBusyRunner (st : RunnerState) (message : String) : RunnerState :=
  { st with
    status := .running
    lastErrorCode := "github_runner_busy"
    lastErrorMessage := message
    lastErrorRetryable := true
    error := message
    assignedJobName := if st.assignedJobName = "" then runnerJobStartedMarker
      else st.assignedJobName }

/-- A runner that ended before it took a job gives the request another attempt. -/
def retryRunnerExitedWithoutJob (st : RunnerState) (now : Time) : RunnerState :=
  if st.workflowJobID = 0 ∨ st.assignedJobID ≠ 0 ∨ st.assignedJobName ≠ "" then st
  else
    let st := applyFailure cfg st .runnerExit (.exitedWithoutJob st.error) true now
    if st.status = .queued then { st with terminationSource := none, runnerExitCode := none }
    else st

/-! ### Reconciliation -/

/-- A completed request that never had a runner, put back by hand. -/
def requeueHistorical (st : RunnerState) : RunnerState :=
  { (clearLastError (clearFailure st)).clearLease.clearRunnerEnvironmentSnapshot
      |>.clearSandboxServiceSnapshot with
    status := .queued
    completedAt := 0
    creatingAt := 0
    failedAt := 0
    nextRetryAt := 0
    assignedJobID := 0
    assignedJobName := ""
    retryCount := 0 }

/-- A failed request whose job has completed on GitHub. -/
def completeObserved (st : RunnerState) (job : WorkflowJob) (now : Time) : RunnerState :=
  let st : RunnerState := { (clearLastError (clearFailure st)).clearLease with
    status := .completed
    assignedJobID := 0
    assignedJobName := ""
    nextRetryAt := 0 }
  { (retainWorkflowJobResult st job now).1 with completedAt := now }

end CiRunner.Lifecycle
