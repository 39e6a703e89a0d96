import CiRunner.Lifecycle.Starts

/-! The end of a runner: stops that are asked for, stops after a failure, and what
is done when the runner process exits by itself. -/

namespace CiRunner.Lifecycle

open Threads CiRunner.State Text

variable (cfg : Settings)

/-! ### Parts of a stop -/

/-- Stop the sandbox of a request, if it has one; `none` means that there is none any more. -/
def stopSandboxOf (st : RunnerState) : Prog Reply (Option Err) :=
  if st.sandboxID = "" then pure none else stopSandbox st.sandboxID

def originalWorkflowJobQueued (st : RunnerState) : Prog Reply (Except Err Bool) := do
  if st.workflowJobID = 0 ∨ trimSpace st.repositoryFullName = "" then pure (.ok false) else
  match ← ask (.getWorkflowJob st.repositoryFullName st.workflowJobID) with
  | .error err => pure (.error err)
  | .ok job => pure (.ok (equalFold (trimSpace (WorkflowJob.status job)) "queued"))

/-- A lookup that fails counts as queued, so that the request is not lost. -/
def queuedOrUnknown (st : RunnerState) : Prog Reply Bool := do
  match ← originalWorkflowJobQueued st with
  | .error _ => pure true
  | .ok queued => pure queued

/-- Put the request back into the queue for its own job, or record that the other job is done
with. The reply has the copy at the version after the write. -/
def requeueMismatchedWorkflowJob (st : RunnerState) (queued : Bool) :
    Prog Reply (Option (Bool × RunnerState)) := do
  if !queued then
    let next : RunnerState := { st with assignedJobID := 0, assignedJobName := "" }
    match ← ask (.writeState .mismatchKept next) with
    | none => pure none
    | some _ => pure (some (false, nextVersion next))
  else
    let next := requeueMismatched st
    match ← ask (.writeState .mismatchRequeued next) with
    | none => pure none
    | some _ => pure (some (true, nextVersion next))

/-! ### Stops that are asked for -/

/-- The request once it has gone back to the queue or ended for another request's job. -/
def finishMismatched (st : RunnerState) : Prog Reply (Option RunnerState) := do
  let queued ← queuedOrUnknown st
  match ← requeueMismatchedWorkflowJob st queued with
  | none => pure none
  | some (true, next) => pure (some next)
  | some (false, next) =>
    let now : Time ← ask .now
    let st : RunnerState :=
      { clearLastError (clearFailure next) with
        status := .completed
        completedAt := now
        nextRetryAt := 0 }
    match ← ask (.writeState .mismatchCompleted st) with
    | none => pure none
    | some _ => pure (some st)

def finishStopRunner (st : RunnerState) : Prog Reply (Option RunnerState) := do
  let now : Time ← ask .now
  match ← ask (.writeState .stopFinal (finishStop st now)) with
  | none => pure none
  | some _ => pure (some (finishStop st now))

/-- The registration that was left over is removed now. -/
def finishJITCleanup (st : RunnerState) : Prog Reply (Option RunnerState) := do
  if st.workflowJobID = 0 then
    let now : Time ← ask .now
    let st : RunnerState :=
      { clearLastError st with
        failureStage := some .githubRegistration
        failureReason := "jit_cleanup_pending"
        status := .failed
        failedAt := now
        nextRetryAt := 0 }
    match ← ask (.writeState .jitFailed st) with
    | none => pure none
    | some _ => pure (some (nextVersion st))
  else
    let queued ← queuedOrUnknown st
    if queued then
      match ← ask (.writeState .jitRequeued (requeueAfterJITCleanup st)) with
      | none => pure none
      | some _ => pure (some (nextVersion (requeueAfterJITCleanup st)))
    else finishStopRunner (clearFailure st)

/-- A stop once the sandbox is gone. -/
def cleanupStoppedRunner (st : RunnerState) (job : WorkflowJob) :
    Prog Reply (Option RunnerState) := do
  match ← cleanupGitHubRunner st with
  | some err =>
    let now : Time ← ask .now
    match scheduleCleanupRetry cfg st err now with
    | some next =>
      match ← ask (.writeState .stopCleanupRetry next) with
      | none => pure none
      | some _ => pure (some (nextVersion next))
    | none =>
      let _ ← ask (.writeState .stopCleanupFailed
        (failWith st .cleanup "github_runner_cleanup_failed" err.text))
      pure none
  | none =>
    if workflowJobMismatch st job then finishMismatched st
    else if st.failureReason = "jit_cleanup_pending" then finishJITCleanup st
    else finishStopRunner st

/-- A stop once the row says that it is under way. -/
def finishStopping (st : RunnerState) (job : WorkflowJob) : Prog Reply (Option RunnerState) := do
  match ← stopSandboxOf st with
  | none => cleanupStoppedRunner cfg st job
  | some err =>
    let now : Time ← ask .now
    match scheduleStopRetry cfg st err now with
    | some next =>
      match ← ask (.writeState .stopRetry next) with
      | none => pure none
      | some _ => pure (some (nextVersion next))
    | none =>
      let _ ← ask (.writeState .stopFailed (failWith st .stop "stop_failed" err.text))
      pure none

/-- The state after the stop, or `none` for an error. -/
def stopRunner (id : String) (job : WorkflowJob) (source : TerminationSource) :
    Prog Reply (Option RunnerState) :=
  withLock id do
    match ← ask (.readState id) with
    | none => pure none
    | some e =>
    let now : Time ← ask .now
    let st := (retainWorkflowJobResult e job now).1
    let resultChanged := (retainWorkflowJobResult e job now).2
    if workflowJobStopConflictsWithAssignment st job then
      if resultChanged then
        match ← ask (.writeState .stopConflictResult st) with
        | none => pure none
        | some _ => pure (some st)
      else pure (some st)
    else if st.status = .completed then
      if resultChanged || shouldRecordAssignedJob st job then
        match ← ask (.writeState .stopCompletedResult (recordAssignedJob st job)) with
        | none => pure none
        | some _ => pure (some (recordAssignedJob st job))
      else pure (some st)
    else
    let st := markRunnerCleanupStarted (setTerminationSource (recordAssignedJob st job) source) now
    match ← ask (.writeState .stopping st) with
    | none => pure none
    | some _ => finishStopping cfg (nextVersion st) job

/-! ### Stops after a failure -/

/-- A stop after a failure, once the row says that it is under way. -/
def finishForced (st : RunnerState) (stage : Stage) (reason message : String) :
    Prog Reply Unit := do
  match ← stopSandboxOf st with
  | some err =>
    writeOrLog .forceStopFailed (failWith st .stop "stop_failed"
      ("forced stop failed after " ++ stage.text ++ ": " ++ err.text))
  | none =>
  let now : Time ← ask .now
  match ← cleanupGitHubRunner st with
  | none => finish st now
  | some err =>
    match scheduleCleanupRetry cfg st err now with
    | some next => writeOrLog .forceCleanupRetry next
    | none =>
      finish { st with
        failureStage := some .cleanup
        failureReason := "github_runner_cleanup_failed"
        error := appendError message ("github runner cleanup: " ++ err.text) } now
where
  finish (st : RunnerState) (now : Time) : Prog Reply Unit :=
    writeOrLog .forceFailed { st.clearLease with
      status := .failed
      failedAt := now
      failureStage := some (st.failureStage.getD stage)
      failureReason := newerText reason st.failureReason
      error := newerText message st.error }

/-- The expected version is 0 where any will do. -/
def failAndStopRunnerVersion (id : String) (expectedVersion : Nat) (stage : Stage)
    (reason message : String) : Prog Reply Unit :=
  withLock id do
    match ← ask (.readState id) with
    | none => pure ()
    | some e =>
    if expectedVersion ≠ 0 ∧ e.version ≠ expectedVersion then pure ()
    else if e.status = .completed ∨ e.status = .failed then pure ()
    else
    let now : Time ← ask .now
    let st : RunnerState :=
      { setTerminationSource (markRunnerCleanupStarted e now) .failureCleanup with
        failureStage := some stage
        failureReason := reason
        error := message }
    match ← ask (.writeState .forceStopping st) with
    | none => pure ()
    | some _ => finishForced cfg (nextVersion st) stage reason message

def failAndStopRunner (id : String) (stage : Stage) (reason message : String) : Prog Reply Unit :=
  failAndStopRunnerVersion cfg id 0 stage reason message

/-! ### Exits -/

/-- Late news of a process that is being cleaned up already. -/
def recordLateRunnerExitEvidence (st : RunnerState) (attempt : RunnerAttemptIdentity)
    (result : ExitResult) (err : Option Err) : Prog Reply Unit := do
  if !attempt.matchesState st ∨
      (st.status ≠ .stopping ∧ st.status ≠ .completed ∧ st.status ≠ .failed) then pure ()
  else
  let versioned := setEffectiveRunnerVersion st result
  if err.isSome || st.runnerExitCode.isSome then
    if versioned.environment = st.environment then pure () else writeOrLog .lateExit versioned
  else writeOrLog .lateExit { versioned with runnerExitCode := some result.exitCode }

/-- The job's result is looked up without the lock. -/
def retainWorkflowJobResultAfterRunnerExit (id : String) : Prog Reply Unit := do
  let wanted (st : RunnerState) : Bool :=
    (st.status = .stopping || st.status = .completed || st.status = .failed) &&
      st.jobResult.observedAt = 0
  let before : Option RunnerState ← withLock id (ask (.readState id))
  match before with
  | none => pure ()
  | some e =>
  if !wanted e ∨ e.workflowJobID = 0 ∨ trimSpace e.repositoryFullName = "" then pure ()
  else
  match ← ask (.getWorkflowJob e.repositoryFullName e.workflowJobID) with
  | .error _ => pure ()
  | .ok job =>
  withLock id do
    match ← ask (.readState id) with
    | none => pure ()
    | some latest =>
      let now : Time ← ask .now
      if latest.workflowJobID ≠ e.workflowJobID ∨
          latest.repositoryFullName ≠ e.repositoryFullName ∨ !wanted latest then
        pure ()
      else if (retainWorkflowJobResult latest job now).2 then
        writeOrLog .exitJobResult (retainWorkflowJobResult latest job now).1
      else pure ()

/-- The end of a runner that ended with an error of its stream, once the row says so. -/
def finishError (st : RunnerState) : Prog Reply Unit := do
  let sandboxErr ← stopSandboxOf st
  let st : RunnerState := match sandboxErr with
    | some e => { st with error := st.error ++ "; cleanup sandbox: " ++ e.text }
    | none => st
  let now : Time ← ask .now
  match ← cleanupGitHubRunner st with
  | none =>
    let st : RunnerState := { st with status := .failed }
    writeOrLog .exitFinal
      (if sandboxErr.isNone then retryRunnerExitedWithoutJob cfg st now else st)
  | some e =>
    match scheduleCleanupRetry cfg st e now with
    | some next => writeOrLog .exitCleanupRetry next
    | none =>
      writeOrLog .exitFinal
        { st with
          status := .failed
          error := appendError st.error ("github runner cleanup: " ++ e.text) }

def cleanupAfterError (st : RunnerState) (err : Err) : Prog Reply Unit := do
  let now : Time ← ask .now
  let st := markRunnerCleanupStarted
    (failWith (setTerminationSource st .processExit) .runnerExit "process_error" err.text) now
  match ← ask (.writeState .exitStopping st) with
  | none => pure ()
  | some _ => finishError cfg (nextVersion st)

/-- The end of a runner that ended with an exit code, once the row says so. -/
def finishExit (st : RunnerState) (runnerFailed : Bool) : Prog Reply Unit := do
  let sandboxErr ← stopSandboxOf st
  let now : Time ← ask .now
  let st : RunnerState := match sandboxErr with
    | some e =>
      { st with status := .failed, error := "cleanup sandbox after runner exit: " ++ e.text }
    | none =>
      if runnerFailed then { st with status := .failed }
      else { st with status := .completed, completedAt := now }
  match ← cleanupGitHubRunner st with
  | none => finish st sandboxErr.isNone now
  | some e =>
    match scheduleCleanupRetry cfg st e now with
    | some next => writeOrLog .exitCleanupRetry next
    | none =>
      finish (failWith st .cleanup "github_runner_cleanup_failed"
        (appendError st.error ("github runner cleanup: " ++ e.text))) sandboxErr.isNone now
where
  finish (st : RunnerState) (stopped : Bool) (now : Time) : Prog Reply Unit :=
    writeOrLog .exitFinal
      (if st.status = .completed ∨ (stopped ∧ st.failureStage = some .runnerExit) then
        retryRunnerExitedWithoutJob cfg st now else st)

def cleanupAfterExit (st : RunnerState) (result : ExitResult) : Prog Reply Unit := do
  let now : Time ← ask .now
  let runnerFailed : Bool := result.exitCode ≠ 0
  let st : RunnerState :=
    { setTerminationSource st .processExit with runnerExitCode := some result.exitCode }
  let st := if runnerFailed then
    failWith st .runnerExit (toString result.exitCode) (runnerExitMessage result) else st
  let st := markRunnerCleanupStarted st now
  match ← ask (.writeState .exitStopping st) with
  | none => pure ()
  | some _ => finishExit cfg (nextVersion st) runnerFailed

def githubRunnerBusy (st : RunnerState) : Prog Reply (Except Err Bool) :=
  if trimSpace st.runnerName = "" ∨ trimSpace st.repositoryFullName = "" then pure (.ok false)
  else ask .runnerBusy

/-- Clean up after the runner; the lock is released before the job's result is looked up. -/
def cleanupExited (id : String) (st : RunnerState) (result : ExitResult) (err : Option Err) :
    Prog Reply Unit := do
  match err with
  | some e => cleanupAfterError cfg st e
  | none => cleanupAfterExit cfg st result
  let _ ← ask (.unlock id)
  retainWorkflowJobResultAfterRunnerExit id

/-- The request is in a status in which an exit ends its runner. -/
def isStarted (st : RunnerState) : Bool := st.status = .creating || st.status = .running

/-- A runner that GitHub may still report as busy. The lock is not held during the lookup. -/
def exitedUnlessBusy (id : String) (st : RunnerState) (attempt : RunnerAttemptIdentity)
    (result : ExitResult) (err : Option Err) : Prog Reply Unit := do
  let _ ← ask (.unlock id)
  let busy : Except Err Bool ← githubRunnerBusy st
  let _ ← ask (.lock id)
  match ← ask (.readState id) with
  | none => ask (.unlock id)
  | some e =>
  if !attempt.matchesState e then ask (.unlock id)
  else if !isStarted e then
    recordLateRunnerExitEvidence e attempt result err
    ask (.unlock id)
  else
  let st := setEffectiveRunnerVersion e result
  match busy with
  | .ok true =>
    let detail := match err with
      | some e => e.text
      | none => runnerExitMessage result
    let kept := keepBusyRunner st
      ("runner process stream ended while GitHub still reports the runner is busy: " ++ detail)
    match ← ask (.writeState .exitBusy kept) with
    | some _ => ask (.unlock id)
    | none =>
      match ← ask (.readState id) with
      | none => ask (.unlock id)
      | some again =>
        if !attempt.matchesState again || !isStarted again then ask (.unlock id)
        else cleanupExited cfg id again result err
  | _ => cleanupExited cfg id st result err

def runnerExitedForAttempt (id : String) (attempt : RunnerAttemptIdentity) (result : ExitResult)
    (err : Option Err) : Prog Reply Unit := do
  let _ ← ask (.lock id)
  match ← ask (.readState id) with
  | none => ask (.unlock id)
  | some e =>
  if attempt.specified && !attempt.matchesState e then ask (.unlock id)
  else if !isStarted e then
    recordLateRunnerExitEvidence e attempt result err
    ask (.unlock id)
  else
  let st := setEffectiveRunnerVersion e result
  if err.isNone && result.exitCode = 0 then cleanupExited cfg id st result err
  else exitedUnlessBusy cfg id st attempt result err

end CiRunner.Lifecycle
