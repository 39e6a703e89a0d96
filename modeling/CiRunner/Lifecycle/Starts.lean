import CiRunner.Lifecycle.Calls

/-! The start of a runner: from the claim of a queued request to the running row,
with its failure paths. -/

namespace CiRunner.Lifecycle

open Threads CiRunner.State Text

variable (cfg : Settings)

/-- Run `p` under the lock of a request. -/
def withLock {α : Type} (id : String) (p : Prog Reply α) : Prog Reply α := do
  let _ ← ask (.lock id)
  let a ← p
  let _ ← ask (.unlock id)
  pure a

/-- Write a state and do nothing about a conflict. -/
def writeOrLog (w : Writer) (st : RunnerState) : Prog Reply Unit := do
  let _ ← ask (.writeState w st)
  pure ()

/-! ### Failures and deferrals -/

/-- The attempt time is compared on Windows only. -/
def failStartForAttempt (attempt : Nat) (id : String) (st : RunnerState) (stage : Stage)
    (err : Err) (attemptAt : Option Time) : Prog Reply Unit :=
  withLock id do
    match ← ask (.readState id) with
    | none =>
      if attemptAt.isSome then pure () else
      let now : Time ← ask .now
      writeOrLog (.failStart attempt) (applyFailure cfg st stage err true now)
    | some current =>
      if attemptAt.any fun at' => current.lastAttemptAt ≠ at' || current.status ≠ .creating
      then pure ()
      else if current.status = .completed ∨ current.status = .stopping then
        ask (.releaseLease attempt id cfg.workerID)
      else
        let now : Time ← ask .now
        writeOrLog (.failStart attempt) (applyFailure cfg current stage err true now)

def deferQueuedRequest (attempt : Nat) (id workerID : String) (nextAttempt : Time)
    (stage : Capacity.CapacityStage) : Prog Reply Unit :=
  withLock id do
    match ← ask (.readState id) with
    | none => ask (.releaseLease attempt id workerID)
    | some e =>
      if e.status ≠ .queued ∨ e.leaseOwner ≠ workerID then
        ask (.releaseLease attempt id workerID)
      else
        match ← ask (.writeState (.deferQueued attempt) (deferQueued e stage nextAttempt)) with
        | none => ask (.releaseLease attempt id workerID)
        | some _ => pure ()

def deferCreatingRequest (attempt : Nat) (id workerID : String) (nextAttempt : Time) :
    Prog Reply Unit :=
  withLock id do
    match ← ask (.readState id) with
    | none => ask (.releaseLease attempt id workerID)
    | some e =>
      if e.status ≠ .creating ∨ e.leaseOwner ≠ workerID ∨ e.sandboxID ≠ "" then pure ()
      else writeOrLog (.deferCreating attempt) (deferCreating e nextAttempt)

/-! ### The check of the job -/

/-- Called under the lock of the request, for a job that is over. -/
def completeWithoutSandbox (attempt : Nat) (id : String) (job : WorkflowJob) :
    Prog Reply (Except Err Bool) := do
  match ← ask (.readState id) with
  | none => pure (.error (.message "read runner state for skip"))
  | some e =>
    if e.status = .completed ∨ e.status = .stopping ∨ e.status = .running then
      pure (.ok false)
    else
      let now : Time ← ask .now
      match ← ask (.writeState (.skipped attempt) (completeSkipped e job now)) with
      | none => pure (.error (.message "write skipped runner state"))
      | some _ => pure (.ok false)

/-- What the lookup of the job means for a request that cannot start yet: whether the job is known
to be waiting, whether GitHub limits the rate, and the code and text to record. -/
def jobCheckOutcome (stale : Bool) (lookup : Except Err WorkflowJob) :
    Bool × Bool × String × String :=
  if stale then
    (true, false, workflowJobWaitCode,
      "workflow job changed during status lookup; recheck required")
  else
    match lookup with
    | .ok job =>
      if isWorkflowJobWaiting job.status || job.status = "in_progress" then
        (true, false, workflowJobWaitCode, "workflow job is " ++ job.status)
      else (false, false, workflowJobStatusCode "unknown", "unrecognized workflow job status")
    | .error err =>
      let code := (classifyRetryableError Stage.githubJobStatus.text err).1
      if code = "http_rate_limited" || code = "github_secondary_rate_limit" then
        (false, true, workflowJobStatusCode "rate_limited",
          "workflow job status lookup rate limited")
      else
        (false, false, workflowJobStatusCode "unavailable", "workflow job status lookup failed")

/-- The request as the check of the job leaves it: back in the queue, or failed where the budget
of attempts is used up. -/
def deferForJob (st : RunnerState) (known rateLimited : Bool) (code message : String)
    (now : Time) : RunnerState :=
  let st : RunnerState :=
    { (clearFailure st).clearLease with
      status := .queued
      creatingAt := 0
      lastErrorCode := code
      lastErrorMessage := message
      lastErrorRetryable := true }
  if !known && !rateLimited && cfg.retryMaxAttempts ≤ st.retryCount then
    { st with
      status := .failed
      error := message
      failureStage := some .githubJobStatus
      failureReason := code
      nextRetryAt := 0 }
  else if known then { st with nextRetryAt := now + waitingDelay cfg (now - st.createdAt) }
  else
    let retryCount :=
      if st.retryCount < cfg.retryMaxAttempts then st.retryCount + 1 else st.retryCount
    { st with
      retryCount := retryCount
      nextRetryAt := nextRetryAt cfg (max retryCount 1) now }

/-- An error left by an earlier check of the job. -/
def waitedForJob (st : RunnerState) : Bool :=
  st.lastErrorCode = workflowJobWaitCode || startsWith st.lastErrorCode (workflowJobStatusCode "")

def ensureWorkflowJobStillQueued (attempt : Nat) (req : RunnerState) (workerID : String) :
    Prog Reply (Except Err Bool) := do
  if req.workflowJobID = 0 then pure (.ok true) else
  match ← ask (.readState req.id) with
  | none => pure (.error (.message "read state"))
  | some before =>
  let answer : Except Err WorkflowJob ← ask (.getWorkflowJob req.repositoryFullName req.workflowJobID)
  let lookup : Except Err WorkflowJob := match answer with
    | .ok job => if job.id ≠ req.workflowJobID then
        .error (.message "workflow job lookup returned a different job") else .ok job
    | .error err => .error err
  withLock req.id do
    match ← ask (.readState req.id) with
    | none => pure (.error (.message "read state"))
    | some e =>
    let st := e
    if st.status ≠ .creating ∨ st.leaseOwner ≠ workerID ∨ st.sandboxID ≠ "" ∨ st.processPID ≠ 0 ∨
        st.lastAttemptAt ≠ before.lastAttemptAt ∨ st.creatingAt ≠ before.creatingAt then
      pure (.ok false)
    else
    let stale : Bool := st.version ≠ before.version
    match stale, lookup with
    | false, .ok job =>
      if job.status = "queued" then
        if waitedForJob st then
          match ← ask (.writeState (.jobCheckCleared attempt)
              { clearLastError (clearFailure st) with nextRetryAt := 0 }) with
          | none => pure (.error (.message "write state"))
          | some _ => pure (.ok true)
        else pure (.ok true)
      else if job.status = "completed" then completeWithoutSandbox attempt req.id job
      else postpone st (jobCheckOutcome false (.ok job))
    | stale, lookup => postpone st (jobCheckOutcome stale lookup)
where
  postpone (st : RunnerState) (outcome : Bool × Bool × String × String) :
      Prog Reply (Except Err Bool) := do
    let now : Time ← ask .now
    match ← ask (.writeState (.jobCheckDeferred attempt)
        (deferForJob cfg st outcome.1 outcome.2.1 outcome.2.2.1 outcome.2.2.2 now)) with
    | none => pure (.error (.message "write state"))
    | some _ => pure (.ok false)

/-! ### Provisioning -/

inductive Persisted where
  | done | deferred
  | failed (err : Err)

/-- The snapshot is written without the lock of the request. -/
def persistSandboxServiceSnapshot (attempt : Nat) (id : String) (config : ServiceSnapshot) :
    Prog Reply Persisted := do
  if config.apiURL = "" ∧ config.apiKeyEncrypted = "" then pure .done else
  match ← ask (.checkSponsorship config) with
  | .deferred => pure .deferred
  | .failed err => pure (.failed err)
  | .allowed =>
  match ← ask (.readState id) with
  | none => pure (.failed (.message "read state for sandbox config snapshot"))
  | some e =>
    match ← ask (.writeState (.snapshot attempt) (setServiceSnapshot e config)) with
    | none => pure (.failed (.message "write sandbox config snapshot"))
    | some _ => pure .done

/-- Stop a sandbox; `none` means that it is gone. -/
def stopSandbox (sandboxID : String) : Prog Reply (Option Err) := do
  match ← ask (.stopSandbox sandboxID) with
  | none => pure none
  | some err => if isSandboxGone err then pure none else pure (some err)

def cleanupStartedSandbox (result : StartResult) : Prog Reply Unit := do
  if result.sandboxID = "" then pure () else
  let _ ← stopSandbox result.sandboxID
  pure ()

def cleanupGitHubRunner (st : RunnerState) : Prog Reply (Option Err) :=
  if trimSpace st.runnerName = "" ∨ trimSpace st.repositoryFullName = "" then pure none
  else ask (.remote .removeRunner)

inductive Launch where
  | adopted | discarded
  | failed (stage : Stage) (err : Err)

/-- Create the sandbox and adopt it, unless the request has moved on. -/
def launch (attempt : Nat) (id : String) (attemptAt : Option Time) (region templateID : String) :
    Prog Reply Launch := do
  match ← ask (.remote .runnerURL) with
  | some err => pure (.failed .githubRunnerURL err)
  | none =>
  match ← ask (.startSandbox id attempt) with
  | .error err => pure (.failed .sandboxStart err)
  | .ok result =>
  let adopted ← withLock id do
    match ← ask (.readState id) with
    | none => pure false
    | some current =>
      if current.status ≠ .creating ∨
          attemptAt.any (fun at' => current.lastAttemptAt ≠ at') then pure false
      else
        match ← ask (.writeState (.running attempt)
            (adoptRunner current result region templateID)) with
        | none => pure false
        | some _ =>
          let _ ← ask (.watchExit id ⟨result.sandboxID, result.pid⟩)
          pure true
  if adopted then pure .adopted else
  cleanupStartedSandbox result
  pure .discarded

/-- Keep a request whose one-time configuration could not be removed for the stop loops. -/
def retainWindowsJITCleanup (attempt : Nat) (id : String) : Prog Reply Unit :=
  withLock id do
    match ← ask (.readState id) with
    | none => pure ()
    | some current =>
      if current.status = .creating ∨
          (current.status = .running ∧ current.sandboxID ≠ "") then pure ()
      else
        let now : Time ← ask .now
        writeOrLog (.jitRetained attempt) (retainJITCleanup cfg current now)

/-- Remove the registration: by its id where it is known, else by name while the attempt is still
the request's own. -/
def cleanupWindowsJIT (id : String) (attemptAt : Time) (runnerKnown : Bool) :
    Prog Reply (Option Err) := do
  if runnerKnown then ask (.remote .removeRunner) else
  withLock id do
    match ← ask (.readState id) with
    | none => pure (some (.message "read state"))
    | some current =>
      if current.lastAttemptAt ≠ attemptAt then pure none else ask (.remote .removeRunner)

/-- Whether the registration is dealt with. -/
def cleanupJIT (attempt : Nat) (id : String) (attemptAt : Time) (runnerKnown : Bool) :
    Prog Reply Bool := do
  match ← cleanupWindowsJIT id attemptAt runnerKnown with
  | none => pure true
  | some _ =>
    retainWindowsJITCleanup cfg attempt id
    pure false

/-- The deferred clean-up at the end of a start on Windows. -/
def cleanupJITUnless (adopted : Bool) (attempt : Nat) (id : String) (attemptAt : Time)
    (runnerKnown : Bool) : Prog Reply Unit := do
  if adopted then pure () else
  let _ ← cleanupJIT cfg attempt id attemptAt runnerKnown
  pure ()

/-- The registration before the failure of an attempt is written. -/
def settleJIT (jit : JITResult) (attempt : Nat) (id : String) (attemptAt : Time) :
    Prog Reply Bool :=
  if jit.cleanupRequired then cleanupJIT cfg attempt id attemptAt jit.runnerKnown else pure true

def failWindows (jit : JITResult) (attempt : Nat) (id : String) (st : RunnerState) (stage : Stage)
    (err : Err) : Prog Reply Unit := do
  let adopted ← settleJIT cfg jit attempt id st.lastAttemptAt
  failStartForAttempt cfg attempt id st stage err (some st.lastAttemptAt)
  cleanupJITUnless cfg adopted attempt id st.lastAttemptAt jit.runnerKnown

inductive Prepared where
  | superseded
  | registered (jit : JITResult)

def prepareWindowsJIT (id : String) (attemptAt : Time) : Prog Reply Prepared :=
  withLock id do
    match ← ask (.readState id) with
    | none => pure (.registered { err := some (.message "read state") })
    | some current =>
      if current.status ≠ .creating ∨ current.lastAttemptAt ≠ attemptAt then
        pure .superseded
      else
        match ← cleanupGitHubRunner current with
        | some err => pure (.registered { err := some err })
        | none =>
          let jit : JITResult ← ask .createJITConfig
          pure (.registered jit)

def launchWindows (attempt : Nat) (id : String) (st : RunnerState) (region templateID : String) :
    Prog Reply Unit := do
  match ← prepareWindowsJIT id st.lastAttemptAt with
  | .superseded => pure ()
  | .registered jit =>
  match jit.err with
  | some err => failWindows cfg jit attempt id st .githubRegistration err
  | none =>
  match ← launch attempt id (some st.lastAttemptAt) region templateID with
  | .adopted => pure ()
  | .discarded =>
    cleanupJITUnless cfg (!jit.cleanupRequired) attempt id st.lastAttemptAt jit.runnerKnown
  | .failed stage err => failWindows cfg jit attempt id st stage err

def launchLinux (attempt : Nat) (id : String) (st : RunnerState) (region templateID : String) :
    Prog Reply Unit := do
  match ← ask (.remote .createRegistrationToken) with
  | some err => failStartForAttempt cfg attempt id st .githubRegistration err none
  | none =>
  match ← launch attempt id none region templateID with
  | .adopted => pure ()
  | .discarded => pure ()
  | .failed stage err => failStartForAttempt cfg attempt id st stage err none

def validateRunnerGroup (req : RunnerState) : Prog Reply (Option Err) :=
  if trimSpace req.runnerGroup = "" then pure none else ask (.remote .validateRunnerGroup)

/-- An attempt after its creating write. -/
def runAttempt (attempt : Nat) (req st : RunnerState) (workerID : String) : Prog Reply Unit := do
  let attemptAt := if isWindows req.labels then some st.lastAttemptAt else none
  let fail (stage : Stage) (err : Err) : Prog Reply Unit :=
    failStartForAttempt cfg attempt req.id st stage err attemptAt
  match ← ensureWorkflowJobStillQueued cfg attempt req workerID with
  | .error err => fail .githubJobStatus err
  | .ok false => pure ()
  | .ok true =>
  match ← validateRunnerGroup req with
  | some err => fail .githubRunnerGroup err
  | none =>
  match ← ask (.sandboxConfig req.id) with
  | .error err => fail .sandboxConfig err
  | .ok config =>
  match ← persistSandboxServiceSnapshot attempt req.id config with
  | .failed err => fail .sandboxConfig err
  | .deferred =>
    let now : Time ← ask .now
    deferCreatingRequest attempt req.id workerID (now + 5000)
  | .done =>
  match ← ask .resolveTemplate with
  | .error err => fail .templateResolution err
  | .ok templateID =>
  match ← ask (.remote .listRunnerApplications) with
  | some err => fail .githubRunnerDownloads err
  | none =>
  let region := cfg.sandboxRegionForAPIURL
    (newerText (trimSpace req.service.apiURL) (trimSpace config.apiURL))
  if isWindows req.labels then launchWindows cfg attempt req.id st region templateID
  else launchLinux cfg attempt req.id st region templateID

/-! ### The start -/

/-- The start under the lock of the request, up to the creating write. The rest runs without. -/
def admitRequest (req : RunnerState) (workerID : String) : Prog Reply Unit := do
  let id := req.id
  match ← ask (.readState id) with
  | none => ask (.unlock id)
  | some e =>
  if e.status ≠ .queued then ask (.unlock id) else
  let attempt : Nat ← ask (.startBegin id)
  match ← ask .checkProfile with
  | some (.lookup err) =>
    let _ ← ask (.unlock id)
    failStartForAttempt cfg attempt id e .profileLookup err none
  | some (.validation err) =>
    let _ ← ask (.unlock id)
    failStartForAttempt cfg attempt id e .profileValidation err none
  | none =>
  match ← ask .reserve with
  | .failed =>
    let _ ← ask (.unlock id)
    ask (.releaseLease attempt id workerID)
  | .refused stage =>
    let _ ← ask (.unlock id)
    let now : Time ← ask .now
    deferQueuedRequest attempt id workerID (now + 5000) stage
  | .granted =>
    let now : Time ← ask .now
    let st := beginCreating cfg e workerID now
    match ← ask (.writeState .creating st) with
    | none =>
      let _ ← ask (.unlock id)
      ask (.releaseLease attempt id workerID)
    | some _ =>
      let _ ← ask (.unlock id)
      runAttempt cfg (attempt + 1) req st workerID

def startRunner (id workerID : String) : Prog Reply Unit := do
  let _ ← ask (.lock id)
  match ← ask (.readState id) with
  | none => ask (.unlock id)
  | some req =>
  if isWindows req.labels then
    -- one provisioning at a time; the lock of the request is not held while waiting
    let _ ← ask (.unlock id)
    let _ ← ask (.lockCreation id)
    let _ ← ask (.lock id)
    admitRequest cfg req workerID
    ask (.unlockCreation id)
  else
    admitRequest cfg req workerID
    ask (.startDone id)

def processQueuedRequests : Prog Reply Unit := do
  let now : Time ← ask .now
  if trimSpace cfg.workerID = "" then pure () else
  match ← ask (.claimCandidate now) with
  | none => pure ()
  | some candidate =>
  let claimed ← ask (.claimUpdate candidate (trimSpace cfg.workerID) now cfg.workerLeaseTTL)
  if claimed then
    match ← ask (.readState (RunnerState.id candidate)) with
    | none => pure ()
    | some e => startRunner cfg e.id cfg.workerID
  else pure ()

end CiRunner.Lifecycle
