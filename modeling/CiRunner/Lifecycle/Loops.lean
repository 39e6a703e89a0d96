import CiRunner.Lifecycle.Stops
import CiRunner.Utf8

/-! Recovery after a restart, the sweeper and the reconciler, webhooks and the
administrator's requests; and the machine that interleaves all operations of the
lifecycle. -/

namespace CiRunner.Lifecycle

open Threads CiRunner.State Text

variable (cfg : Settings)

/-! ### Recovery -/

/-- An interrupted creation may have left a registration on Windows. -/
def cleanupInterrupted (req st : RunnerState) : Prog Reply (Option Err) :=
  if isWindows req.labels then cleanupGitHubRunner st else pure none

def requeueInterruptedCreation (id : String) (stateVersion : Nat) : Prog Reply Unit :=
  withLock id do
    match ← ask (.readState id) with
    | none => pure ()
    | some e =>
    if e.version ≠ stateVersion ∨ e.status ≠ .creating then pure () else
    match ← ask (.readState id) with
    | none => pure ()
    | some req =>
    let now : Time ← ask .now
    match ← cleanupInterrupted req e with
    | some _ => writeOrLog .jitInterrupted (retainJITCleanup cfg e now)
    | none => writeOrLog .requeueInterrupted (requeueInterrupted e)

/-- The sandbox has used up its time. -/
def sandboxExpired (st : RunnerState) (now : Time) : Bool :=
  let startedAt := if st.runningAt = 0 then st.creatingAt else st.runningAt
  if startedAt = 0 then cfg.sandboxTimeout = 0 else cfg.sandboxTimeout ≤ now - startedAt

/-- Adopt the runner that was found, unless the request has changed meanwhile. -/
def reconnectRunner (id : String) (stateVersion : Nat) (result : StartResult) (attempt : Nat)
    (region : String) : Prog Reply Unit := do
  let accepted ← withLock id do
    match ← ask (.readState id) with
    | none => pure false
    | some latest =>
      if latest.version ≠ stateVersion ∨ !isStarted latest then pure false
      else
        match ← ask (.writeState (.reconnect (if latest.sandboxID = "" then some attempt else none))
            (adoptRecovered latest result region)) with
        | none => pure false
        | some _ => pure true
  if accepted then ask (.watchExit id ⟨result.sandboxID, result.pid⟩) else pure ()

/-- What is done about a request whose runner was not found. -/
def recoverMissing (st : RunnerState) (stateVersion : Nat) (job : Option WorkflowJob) :
    Recovered → Prog Reply Unit
  | .sandboxNotFound =>
    if st.status = .running then
      failAndStopRunnerVersion cfg st.id stateVersion .recovery "sandbox_not_found"
        "runner sandbox no longer exists after restart"
    else if st.status ≠ .creating then pure ()
    else if job.all fun j => j.status = "queued" || isWorkflowJobWaiting j.status then
      requeueInterruptedCreation cfg st.id stateVersion
    else if job.any fun j => equalFold (trimSpace j.status) "in_progress" then
      failAndStopRunnerVersion cfg st.id stateVersion .recovery "sandbox_not_found"
        "runner sandbox no longer exists after interrupted creation"
    else pure ()
  | .runnerNotFound sandboxID =>
    if st.status ≠ .creating ∨ sandboxID = "" then pure () else do
    match ← stopSandbox sandboxID with
    | some _ => pure ()
    | none => requeueInterruptedCreation cfg st.id stateVersion
  | _ => pure ()

def reconnectOrRecover (st : RunnerState) (stateVersion : Nat) (job : Option WorkflowJob) :
    Prog Reply Unit := do
  let now : Time ← ask .now
  if sandboxExpired cfg st now then
    failAndStopRunnerVersion cfg st.id stateVersion .sandboxTimeout "timeout"
      "runner exceeded sandbox timeout during recovery"
  else
  match ← ask (.readState st.id) with
  | none => pure ()
  | some req =>
  match ← ask (.remote .resolveSandboxService) with
  | some _ => pure ()
  | none =>
  match ← ask (.recoverSandbox st.sandboxID) with
  | .found result attempt =>
    reconnectRunner st.id stateVersion result attempt
      (cfg.sandboxRegionForAPIURL req.service.apiURL)
  | missing => recoverMissing cfg st stateVersion job missing

/-- The job of the request; a lookup that fails is as good as none. -/
def workflowJobForRecovery (st : RunnerState) : Prog Reply (Option WorkflowJob) := do
  if st.workflowJobID = 0 ∨ trimSpace st.repositoryFullName = "" then pure none else
  match ← ask (.getWorkflowJob st.repositoryFullName st.workflowJobID) with
  | .error _ => pure none
  | .ok job => pure (some job)

def recoverActiveRunner (st : RunnerState) (stateVersion : Nat) : Prog Reply Unit := do
  match ← workflowJobForRecovery st with
  | none => reconnectOrRecover cfg st stateVersion none
  | some j =>
    if equalFold (trimSpace j.status) "completed" then
      match ← stopRunner cfg st.id j .recoveryCleanup with
      | none => pure ()
      | some latest =>
        if isStarted latest then reconnectOrRecover cfg latest latest.version (some j) else pure ()
    else reconnectOrRecover cfg st stateVersion (some j)

def recoverRunner (id : String) : Prog Reply Unit := do
  let _ ← ask (.lock id)
  match ← ask (.readState id) with
  | none => ask (.unlock id)
  | some e =>
  match e.status with
  | .queued =>
    let _ ← ask (.writeState .recoverLease e.clearLease)
    ask (.unlock id)
  | .stopping =>
    let _ ← ask (.unlock id)
    let _ ← stopRunner cfg id {} .recoveryCleanup
    pure ()
  | .creating | .running =>
    let _ ← ask (.unlock id)
    recoverActiveRunner cfg e e.version
  | .completed | .failed => ask (.unlock id)

/-! ### Jobs that a runner has taken -/

/-- A runner of the given attempt, or the sweeper, has seen that a job was taken. -/
def markRunnerJobStarted (attempt : Option Nat) (id : String) : Prog Reply Unit :=
  withLock id do
    match ← ask (.readState id) with
    | none => pure ()
    | some e =>
      if e.assignedJobID ≠ 0 ∨ e.assignedJobName = runnerJobStartedMarker ∨
          e.status = .completed ∨ e.status = .stopping then pure ()
      else writeOrLog (.jobStarted attempt) { e with assignedJobName := runnerJobStartedMarker }

/-- The bytes contain one of the texts by which a runner tells that it has taken a job. -/
def announcesJob (data : Utf8.Bytes) : Bool :=
  hasInfix (Utf8.encode "Running job:".toList) data ||
    hasInfix (Utf8.encode "RUNNERD_JOB_STARTED".toList) data

def appendRunnerStdout (attempt : Nat) (id : String) (data : Utf8.Bytes) : Prog Reply Unit :=
  if announcesJob data then markRunnerJobStarted (some attempt) id else pure ()

def markWorkflowJobInProgress (id : String) (job : WorkflowJob) : Prog Reply Unit :=
  withLock id do
    match ← ask (.readState id) with
    | none => pure ()
    | some e =>
      if e.status = .completed ∨ e.status = .stopping then pure ()
      else if shouldRecordAssignedJob e job then
        writeOrLog .jobInProgress (recordAssignedJob e job)
      else pure ()

/-! ### The sweeper -/

def stopIfExists (id : String) (source : TerminationSource) : Prog Reply Unit := do
  match ← ask (.readState id) with
  | none => pure ()
  | some _ =>
    let _ ← stopRunner cfg id {} source
    pure ()

def retryOrFail (id : String) (stage : Stage) (err : Err) : Prog Reply Unit :=
  withLock id do
    match ← ask (.readState id) with
    | none => pure ()
    | some current =>
      if current.status = .completed ∨ current.status = .failed then pure ()
      else
        let now : Time ← ask .now
        writeOrLog .retryOrFail (applyFailure cfg current stage err true now)

def createTimedOut (st : RunnerState) (now : Time) : Bool :=
  st.creatingAt ≠ 0 && cfg.sandboxCreateTimeout < now - st.creatingAt

def runTimedOut (st : RunnerState) (now : Time) : Bool :=
  st.runningAt ≠ 0 && cfg.sandboxTimeout < now - st.runningAt

/-- A stop that has been under way for too long and is not waiting for its next try. -/
def stopTimedOut (st : RunnerState) (now : Time) : Bool :=
  !(st.nextRetryAt ≠ 0 && now < st.nextRetryAt) &&
    (st.stoppingAt ≠ 0 && cfg.sandboxStopTimeout < now - st.stoppingAt)

/-- One listed request; the reply tells whether its runner was stopped. -/
def sweepTimeout (now : Time) (st : RunnerState) : Prog Reply Bool := do
  match st.status with
  | .creating =>
    if createTimedOut cfg st now then
      retryOrFail cfg st.id .sweeperCreateTimeout (.message "runner create timed out")
      pure false
    else pure false
  | .running =>
    if runTimedOut cfg st now then
      failAndStopRunner cfg st.id .sandboxTimeout "timeout" "runner exceeded sandbox timeout"
      pure true
    else pure false
  | .stopping =>
    if stopTimedOut cfg st now then
      stopIfExists cfg st.id .recoveryCleanup
      pure false
    else pure false
  | _ => pure false

def shouldStopIdleRunner (st : RunnerState) (now : Time) : Bool :=
  cfg.runnerIdleTimeout ≠ 0 && st.runningAt ≠ 0 && st.assignedJobID = 0 &&
    st.assignedJobName ≠ runnerJobStartedMarker && cfg.runnerIdleTimeout < now - st.runningAt

def sweepIdle (now : Time) (stopped : List String) (st : RunnerState) : Prog Reply Unit := do
  if st.status ≠ .running ∨ !shouldStopIdleRunner cfg st now ∨ st.id ∈ stopped then pure () else
  match ← originalWorkflowJobQueued st with
  | .error _ => pure ()
  | .ok true => pure ()
  | .ok false =>
  match ← githubRunnerBusy st with
  | .error _ => pure ()
  | .ok true => markRunnerJobStarted none st.id
  | .ok false => stopIfExists cfg st.id .idleCleanup

/-- Do something for each of the listed requests. -/
def forEach (f : RunnerState → Prog Reply Unit) : List RunnerState → Prog Reply Unit
  | [] => pure ()
  | st :: rest => do
    f st
    forEach f rest

/-- The first pass of the sweeper, with the requests whose runner it has stopped. -/
def sweepTimeouts (now : Time) : List RunnerState → Prog Reply (List String)
  | [] => pure []
  | st :: rest => do
    let stopped ← sweepTimeout cfg now st
    let others ← sweepTimeouts now rest
    pure (if stopped then st.id :: others else others)

/-- The list is read once, before anything is done about it. -/
def sweepOnce : Prog Reply Unit := do
  let states : List RunnerState ← ask .listActiveStates
  let now : Time ← ask .now
  let stopped ← sweepTimeouts cfg now states
  forEach (sweepIdle cfg now stopped) states

/-! ### The reconciler -/

def reconcileStopping (st : RunnerState) : Prog Reply Unit := do
  let now : Time ← ask .now
  if st.status = .stopping ∧ stopTimedOut cfg st now then stopIfExists cfg st.id .recoveryCleanup
  else pure ()

def reconcileMismatchedCompletedJob (st : RunnerState) : Prog Reply Unit := do
  let before : Option RunnerState ← withLock st.id (ask (.readState st.id))
  match before with
  | none => pure ()
  | some current =>
  if current.status ≠ .completed ∨ current.workflowJobID = 0 ∨
      current.assignedJobID = 0 ∨ current.workflowJobID = current.assignedJobID then
    pure ()
  else
  let queued ← queuedOrUnknown current
  withLock st.id do
    match ← ask (.readState st.id) with
    | none => pure ()
    | some latest =>
      if latest.status ≠ .completed ∨ latest.workflowJobID ≠ current.workflowJobID ∨
          latest.assignedJobID ≠ current.assignedJobID then pure ()
      else
        let _ ← requeueMismatchedWorkflowJob latest queued
        pure ()

/-- A failure that a completed job makes up for. -/
def failedAfterJob (st : RunnerState) : Bool :=
  st.status = .failed && (st.failureStage = some .recovery || st.failureStage = some .cleanup)

def completeIfWorkflowJobCompleted (id : String) : Prog Reply Unit := do
  let before : Option RunnerState ← withLock id (ask (.readState id))
  match before with
  | none => pure ()
  | some e =>
  if e.workflowJobID = 0 ∨ e.repositoryFullName = "" ∨ !failedAfterJob e then pure ()
  else
  match ← ask (.getWorkflowJob e.repositoryFullName e.workflowJobID) with
  | .error _ => pure ()
  | .ok job =>
  if !equalFold (trimSpace (WorkflowJob.status job)) "completed" then pure () else
  withLock id do
    match ← ask (.readState id) with
    | none => pure ()
    | some latest =>
      if latest.version ≠ e.version ∨ latest.workflowJobID ≠ e.workflowJobID ∨
          latest.repositoryFullName ≠ e.repositoryFullName ∨ !failedAfterJob latest then
        pure ()
      else
        let now : Time ← ask .now
        writeOrLog .completeObserved (completeObserved latest job now)

def reconcileCompletedWorkflowJobs : Prog Reply Unit := do
  let failed : List RunnerState ← ask .listFailedWorkflowJobStates
  forEach (fun st => completeIfWorkflowJobCompleted st.id) failed

/-- The claims that the reconciler makes first are operations of their own. -/
def reconcileOnce : Prog Reply Unit := do
  let states : List RunnerState ← ask .listActiveStates
  forEach (reconcileStopping cfg) states
  let mismatched : List RunnerState ← ask .listMismatchedCompletedStates
  forEach reconcileMismatchedCompletedJob mismatched
  reconcileCompletedWorkflowJobs

/-! ### Webhooks and administration -/

/-- The request that a job belongs to, by its runner or by its own id. -/
def completedWorkflowJobStopID (job : WorkflowJob) : Prog Reply (Option String) := do
  if startsWith job.runnerName "e2b-" then
    let id := String.ofList (job.runnerName.toList.drop 4)
    pure (if id = "" then none else some id)
  else if job.id = 0 then pure none
  else
    match ← ask (.readState (toString job.id)) with
    | none => pure none
    | some _ => pure (some (toString job.id))

def workflowJobInProgress (job : WorkflowJob) : Prog Reply Unit := do
  match ← completedWorkflowJobStopID job with
  | none => pure ()
  | some id => markWorkflowJobInProgress id job

def workflowJobCompleted (job : WorkflowJob) : Prog Reply Unit := do
  match ← completedWorkflowJobStopID job with
  | none => pure ()
  | some id =>
    let _ ← stopRunner cfg id job .workflowJobWebhook
    pure ()

/-- A delivery for a request that waits for its job. The lock is not taken. -/
def wakeWaitingWorkflowJob (req : NewRequest) : Prog Reply Unit := do
  if req.jobID = 0 then pure () else
  match ← ask (.readState req.id) with
  | none => pure ()
  | some e =>
    if e.status ≠ .queued ∨ e.lastErrorCode ≠ workflowJobWaitCode ∨ e.leaseOwner ≠ "" ∨
        e.sandboxID ≠ "" ∨ e.processPID ≠ 0 ∨ e.workflowJobID ≠ req.jobID ∨
        e.repositoryFullName ≠ req.repositoryFullName ∨
        e.gitHubInstallationID ≠ req.gitHubInstallationID ∨ e.nextRetryAt = 0 then pure ()
    else writeOrLog .wake { e with nextRetryAt := 0 }

/-- A job that matches a profile. -/
def enqueueWorkflowJob (req : NewRequest) : Prog Reply Unit := do
  match ← ask (.readState req.id) with
  | some _ => wakeWaitingWorkflowJob req
  | none =>
    let now : Time ← ask .now
    ask (.createRequest (req.row now))

/-- A job that is not admitted. -/
def createRejectedRequest (req : NewRequest) (reason : String) : Prog Reply Unit := do
  let now : Time ← ask .now
  ask (.createRequest (req.rejectedRow reason now))

/-- A completed request without any sign of a runner. -/
def neverRan (st : RunnerState) : Bool :=
  st.status = .completed && st.workflowJobID ≠ 0 && st.sandboxID = "" && st.processPID = 0 &&
    st.runningAt = 0 && st.stoppingAt = 0 && st.terminationSource.isNone &&
    st.runnerExitCode.isNone && st.jobResult.status = "" && st.jobResult.conclusion = "" &&
    st.jobResult.observedAt = 0

/-- The state that is written is the one read at first. -/
def retryHistoricalWaitingJob (id : String) : Prog Reply Unit := do
  match ← ask (.readState id) with
  | none => pure ()
  | some e =>
  if !neverRan e then pure () else
  match ← ask (.remote .skippedWhileWaiting) with
  | some _ => pure ()
  | none =>
  match ← ask (.readState id) with
  | none => pure ()
  | some req =>
  match ← ask (.getWorkflowJob req.repositoryFullName req.workflowJobID) with
  | .error _ => pure ()
  | .ok job =>
  if WorkflowJob.id job ≠ req.workflowJobID ∨ WorkflowJob.status job ≠ "queued" ∨
      WorkflowJob.runnerName job ≠ "" ∨ WorkflowJob.conclusion job ≠ "" then pure () else
  withLock id do
    match ← ask .checkProfile with
    | some _ => pure ()
    | none => writeOrLog .historical (requeueHistorical e)

def retryRunner (id : String) : Prog Reply Unit := do
  let now : Time ← ask .now
  match ← ask (.readState id) with
  | none => pure ()
  | some e =>
    if e.retryAllowed then ask (.retryUpdate e now)
    else retryHistoricalWaitingJob id

def deleteRunner (id : String) : Prog Reply Unit := do
  let _ ← stopRunner cfg id {} .manualStop
  pure ()

/-! ### The machine -/

inductive Op where
  | enqueueWorkflowJob (req : NewRequest)
  | createRejectedRequest (req : NewRequest) (reason : String)
  | processQueuedRequests
  | runnerOutput (attempt : Nat) (id : String) (data : Utf8.Bytes)
  | runnerExited (id : String) (attempt : RunnerAttemptIdentity) (result : ExitResult)
      (err : Option Err)
  | workflowJobInProgress (job : WorkflowJob)
  | workflowJobCompleted (job : WorkflowJob)
  | retryRunner (id : String)
  | deleteRunner (id : String)
  | recoverRunner (id : String)
  | sweepOnce
  | reconcileOnce

def program : Op → Prog Reply Unit
  | .enqueueWorkflowJob req => enqueueWorkflowJob req
  | .createRejectedRequest req reason => createRejectedRequest req reason
  | .processQueuedRequests => processQueuedRequests cfg
  | .runnerOutput attempt id data => appendRunnerStdout attempt id data
  | .runnerExited id attempt result err => runnerExitedForAttempt cfg id attempt result err
  | .workflowJobInProgress job => workflowJobInProgress job
  | .workflowJobCompleted job => workflowJobCompleted cfg job
  | .retryRunner id => retryRunner id
  | .deleteRunner id => deleteRunner cfg id
  | .recoverRunner id => recoverRunner cfg id
  | .sweepOnce => sweepOnce cfg
  | .reconcileOnce => reconcileOnce cfg

/-- Output comes from runners that were started, exits from those that are watched. -/
def enabled : Op → State → Bool
  | .runnerOutput attempt id _, s => (id, attempt) ∈ s.outputs
  | .runnerExited id attempt _ _, s => (id, attempt) ∈ s.watched
  | _, _ => true

def machine : Machine Reply State Choice Op where
  serve := serve cfg
  prog := program cfg
  enabled := enabled
  restart := State.restart

end CiRunner.Lifecycle
