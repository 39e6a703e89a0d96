import CiRunner.Deployments.Calls

/-! The deployment worker. Every step with an effect beyond the store follows a
committed transition of the deployment; the worker keeps its own copy of the row and
writes it back under the version that it knows. -/

namespace CiRunner.Deployments

open Text Threads
open CiRunner.State (Time)

inductive WorkerError where
  | createPending
  | runtimeMismatch
  | store (e : StoreError)
  | provider
  deriving DecidableEq, Repr

/-- The copy that a function leaves, and its error. -/
abbrev Outcome := Deployment × Option WorkerError

/-! ### Writing -/

/-- The version of the copy goes up with that of the row. -/
def persist (w : Site) (d : Deployment) : Prog Reply Outcome := do
  match ← ask (.updateDeployment w d) with
  | some e => pure (d, some (.store e))
  | none => pure ({ d with version := d.version + 1 }, none)

def emit (d : Deployment) (eventType stage : String) (message : String) (stream : String := "") :
    Prog Reply Unit :=
  ask (.appendEvent
    { deploymentID := d.id
      revisionNumber := d.revisionNumber
      attempt := d.attempt
      eventType := eventType
      stage := stage
      stream := stream
      message := bytes message })

def stageText (stage : Option Stage) : String := (stage.map Stage.text).getD ""

/-- The copy of a transition. Cleanup keeps the failure that it cleans up after. -/
def Deployment.transitioned (d : Deployment) (status : DeploymentStatus) (stage : Option Stage)
    (reason : String) : Deployment :=
  let preserveFailure :=
    d.status = .failed ∨ (d.status = .stopping ∧ d.failure.reason ≠ "")
  { d with
    status := status
    failure := if status ≠ .stopping ∨ ¬preserveFailure then ⟨stage, reason⟩ else d.failure }

def transition (w : Site) (d : Deployment) (status : DeploymentStatus) (stage : Option Stage)
    (reason : String) : Prog Reply Outcome := do
  let (d, err) ← persist w (d.transitioned status stage reason)
  if err = none then emit d "lifecycle" (stageText stage) ("status: " ++ status.text)
  pure (d, err)

def Deployment.failedAt (d : Deployment) (stage : Stage) (reason : String) : Deployment :=
  { d with status := .failed, failure := ⟨some stage, reason⟩, error := reason }

def fail (w : Site) (d : Deployment) (stage : Stage) (reason : String) : Prog Reply Outcome := do
  let (d, err) ← persist w (d.failedAt stage reason)
  if err = none then emit d "failure" stage.text reason
  pure (d, err)

/-- The copy with nothing of a sandbox. -/
def Deployment.cleared (d : Deployment) : Deployment := { d with sandboxID := "", process := {} }

def Deployment.withSandbox (d : Deployment) (sandboxID runtimeID : String) : Deployment :=
  { d with sandboxID := sandboxID, process := { d.process with runtimeID := runtimeID } }

/-- A handle that there may be is closed. -/
def closeAttempt (handle : Option Handle) : Prog Reply Bool := do
  match handle with
  | none => pure true
  | some handle => ask (.close handle)

/-! ### Stopping -/

/-- What remains of the failure of a deployment that is stopped. -/
structure StopPlan where
  expiryCleanup : Bool
  preserveFailed : Bool
  deriving DecidableEq, Repr

def stopPlan (d : Deployment) (expired : Bool) : StopPlan :=
  let expiryCleanup : Bool := d.failure.stage = some .expiryCleanup
  let preserveFailed : Bool :=
    (d.status = .failed ∨ (d.status = .stopping ∧ d.failure.reason ≠ "")) ∧ expiryCleanup = false
  ⟨expiryCleanup || (expired && !preserveFailed), preserveFailed⟩

def failCleanup (plan : StopPlan) (d : Deployment) : Prog Reply Outcome :=
  if plan.expiryCleanup then
    fail .stopCleanupFailed d .expiryCleanup "deployment expired; cleanup is incomplete"
  else fail .stopCleanupFailed d .cleanup "deployment cleanup is incomplete"

/-- The failure of a cleanup that was itself recorded is the one to report. -/
def cleanupFailed (plan : StopPlan) (d : Deployment) : Prog Reply (Option WorkerError) := do
  let (_, err) ← failCleanup plan d
  pure (err.or (some .provider))

/-- The copy of a deployment whose sandbox is gone. -/
def Deployment.ended (d : Deployment) (plan : StopPlan) (expired : Bool) : Deployment :=
  { d.cleared with
    status :=
      if plan.preserveFailed then .failed
      else if expired || plan.expiryCleanup then .expired
      else .completed
    failure := if plan.expiryCleanup then {} else d.failure
    error := if plan.expiryCleanup then "" else d.error }

def finishStop (plan : StopPlan) (d : Deployment) (expired : Bool) :
    Prog Reply (Option WorkerError) := do
  let (_, err) ← persist .stopped (d.ended plan expired)
  pure err

/-- Stop the process of the deployment and close its sandbox. -/
def closeDeployment (plan : StopPlan) (d : Deployment) (expired : Bool) (handle : Handle) :
    Prog Reply (Option WorkerError) := do
  let runtimeID := if d.process.runtimeID = "" then handle.sandboxID else d.process.runtimeID
  let stopped ← if d.process.id ≠ "" ∧ d.process.tag ≠ "" then
      ask (.stopProcess { d.process with runtimeID := runtimeID })
    else pure .ok
  if stopped = .failed then cleanupFailed plan d
  else if ← ask (.close handle) then finishStop plan d expired
  else cleanupFailed plan d

def cleanUp (plan : StopPlan) (d : Deployment) (expired : Bool) :
    Prog Reply (Option WorkerError) := do
  if trimSpace d.sandboxID = "" then finishStop plan d expired
  else
    match ← ask (.connect d) with
    | .failed => cleanupFailed plan d
    | .missing => finishStop plan d expired
    | .found handle => closeDeployment plan d expired handle

/-- The sandbox that an interrupted creation may have left. A failed lookup, or none before the
creation can be given up, ends the stop with an error. -/
def reconcileStop (d : Deployment) : Prog Reply Outcome := do
  match ← ask (.reconcile d) with
  | .failed => pure (d, some .provider)
  | .none =>
    let now ← ask (.nowAfterLookup d)
    if now < d.expiresAt + createGrace then pure (d, some .createPending) else pure (d, none)
  | .found handle =>
    if handle.sandboxID = "" then pure (d, some .runtimeMismatch)
    else persist .stopRecovered (d.withSandbox handle.sandboxID handle.sandboxID)

/-- Stop the attempt of a deployment that was read, and delete its sandbox. -/
def stopLoaded (d : Deployment) (expired : Bool) : Prog Reply (Option WorkerError) := do
  let plan := stopPlan d expired
  if d.status.terminal ∧ trimSpace d.sandboxID = "" then pure none
  else
    let (d, err) ← if d.sandboxID = "" ∧ 0 < d.attempt ∧
        (d.status = .creating ∨ d.status = .stopping) then reconcileStop d
      else pure (d, none)
    match err with
    | some err => pure (some err)
    | none =>
      let unstarted := decide (d.status = .queued ∨ d.status = .planning)
      let (d, err) ← transition (.stopping unstarted) d .stopping (some .cleanup) ""
      match err with
      | some err => pure (some err)
      | none => cleanUp plan d expired

/-- The deployment is stopped if it is as it was observed, if it was. -/
def stop (id : String) (expired : Bool) (observed : Option Deployment) :
    Prog Reply (Option WorkerError) := do
  match ← ask (.getDeployment .act id) with
  | .error e => pure (some (.store e))
  | .ok d =>
    if observed.any fun o => d.version ≠ o.version then pure (some (.store .conflict))
    else stopLoaded d expired

def Stop (id : String) (expired : Bool) : Prog Reply (Option WorkerError) := stop id expired none

/-! ### Executing a plan -/

def deploymentStageMessage : ApplyStage → String
  | .preparing => "Preparing deployment workspace."
  | .cloning => "Cloning repository at the pinned Commit."
  | .verifying => "Verifying the checked-out Commit."
  | .installing => "Running installation command."
  | .starting => "Starting application."
  | .probing => "Checking application readiness."
  | .ready => "Deployment stage: ready"

def onStage (d : Deployment) (stage : ApplyStage) : Prog Reply Deployment := do
  if stage = .ready then
    emit d "lifecycle" stage.text "deployment is ready"
    pure d
  else
    emit d "lifecycle" stage.text (deploymentStageMessage stage)
    let (d, _) ← transition .applyStage d .creating (some (.apply stage)) ""
    pure d

/-- The copy with what a checkpoint says of the process. -/
def Deployment.checkpointed (d : Deployment) (process : ProcessRef) (intentTag : String) :
    Deployment :=
  let saved := if process.runtimeID ≠ "" then process else d.process
  { d with process := { saved with tag := if intentTag ≠ "" then intentTag else saved.tag } }

def onCheckpoint (d : Deployment) (process : ProcessRef) (intentTag : String) :
    Prog Reply Deployment := do
  let (d, _) ← persist .checkpoint (d.checkpointed process intentTag)
  pure d

/-- The execution of a plan calls back as it goes along. It is free to go on or to end after a
callback that fails. -/
def apply : Nat → Deployment → Prog Reply Deployment
  | 0, d => pure d
  | n + 1, d => do
    match ← ask .applyEvent with
    | .stage stage => apply n (← onStage d stage)
    | .checkpoint process intentTag => apply n (← onCheckpoint d process intentTag)
    | .output stage stream message =>
      emit d "output" stage.text message stream
      apply n d

def applyFailed (d : Deployment) (handle : Handle) (stage : ApplyStage) :
    Prog Reply (Option WorkerError) := do
  let closed ← closeAttempt (some handle)
  let d := if closed then d.cleared else d
  let now ← ask .now
  let expired := decide (d.expiresAt ≤ now)
  let (_, err) ← if closed ∧ expired then transition .applyExpired d .expired (some .cleanup) ""
    else if closed then fail .applyFailed d (.apply stage) "deployment execution failed"
    else if expired then
      fail .applyCleanupFailed d .expiryCleanup "deployment expired; cleanup is incomplete"
    else
      fail .applyFailed d (.apply stage) "deployment execution failed; cleanup is incomplete"
  pure err

def Deployment.readied (d : Deployment) (endpoint : String) (process : ProcessRef) : Deployment :=
  { d with endpoint := endpoint, process := process }

/-- An attempt that is not kept is closed on the way out. -/
def abandon (handle : Handle) (err : WorkerError) : Prog Reply (Option WorkerError) := do
  let _ ← closeAttempt (some handle)
  pure (some err)

/-- The copy with the evidence of a confirmed creation. -/
def Deployment.confirmed (d : Deployment) (handle : Handle) : Deployment :=
  { d.withSandbox (trimSpace handle.sandboxID) handle.sandboxID with
    expiresAt := if handle.expiresAt = 0 then d.expiresAt else handle.expiresAt }

/-- Execute the plan in a sandbox that has been created. -/
def execute (d : Deployment) (handle : Handle) : Prog Reply (Option WorkerError) := do
  let (d, err) ← persist .created (d.confirmed handle)
  match err with
  | some err => abandon handle err
  | none =>
    let d ← apply (← ask .applyLength) d
    match ← ask .applyResult with
    | .failed stage => applyFailed d handle stage
    | .ready endpoint process =>
      let (_, err) ← transition .running (d.readied endpoint process) .running
        (some (.apply .ready)) ""
      match err with
      | some err => abandon handle err
      | none => pure none

def createFailed (d : Deployment) (handle : Option Handle) : Prog Reply (Option WorkerError) := do
  match handle with
  | none =>
    let (_, err) ← fail .createFailed d .sandboxCreate "Sandbox creation failed"
    pure err
  | some handle =>
    let (d, err) ← persist .created (d.withSandbox (trimSpace handle.sandboxID) handle.sandboxID)
    match err with
    | some err => pure (some err)
    | none =>
      if ← closeAttempt (some handle) then
        let (_, err) ← fail .createFailed
          { d with sandboxID := "", process := { d.process with runtimeID := "" } } .sandboxCreate
          "Sandbox creation failed"
        pure err
      else
        let (_, err) ← fail .createFailed d .sandboxCreate
          "Sandbox creation failed; cleanup is incomplete"
        pure err

/-- Create the sandbox of an attempt and execute its plan there. -/
def createAttempt (d : Deployment) : Prog Reply (Option WorkerError) := do
  match ← ask (.createRuntime d d.attempt) with
  | .pending =>
    emit d "lifecycle" Stage.sandboxCreate.text
      "creation outcome is unknown; reconciling the saved attempt"
    pure (some .createPending)
  | .failed => createFailed d none
  | .made handle true => createFailed d (some handle)
  | .made handle false =>
    if trimSpace handle.sandboxID = "" then
      let _ ← closeAttempt (some handle)
      let (_, err) ← fail .createUnconfirmed d .sandboxCreate "Sandbox identity was not confirmed"
      pure err
    else execute d handle

/-- Take back the plan of a deployment that is planning; the error is where it fails. -/
def restorePlan : Prog Reply (Option (Stage × String)) := do
  if !(← ask (.remote .decodeSpec)) then
    pure (some (.planRestore, "persisted deployment plan is invalid"))
  else if !(← ask (.remote .source)) then
    pure (some (.source, "deployment source is unavailable"))
  else if !(← ask (.remote .restore)) then
    pure (some (.planRestore, "persisted deployment plan is invalid"))
  else pure none

/-- The next attempt, with the template of the worker where the deployment has none. -/
def Deployment.nextAttempt (d : Deployment) (templateID : String) : Deployment :=
  { d with
    attempt := d.attempt + 1
    template :=
      if trimSpace d.template.id = "" then { d.template with id := trimSpace templateID }
      else d.template }

def processPlanning (templateID : String) (d : Deployment) : Prog Reply (Option WorkerError) := do
  match ← restorePlan with
  | some (stage, reason) =>
    let (_, err) ← fail .planFailed d stage reason
    pure err
  | none =>
    let d := d.nextAttempt templateID
    if d.template.id = "" then
      let (_, err) ← fail .templateFailed d .template
        "no deployment template selected; create a deployment with an available Sandbox template"
      pure err
    else
      let (d, err) ← transition .creating d .creating none ""
      match err with
      | some err => pure (some err)
      | none => createAttempt d

/-- Execute one queued deployment. -/
def process (templateID id : String) : Prog Reply (Option WorkerError) := do
  match ← ask (.getDeployment .act id) with
  | .error e => pure (some (.store e))
  | .ok d =>
    if d.status ≠ .queued then pure none
    else
      let now ← ask .now
      if d.expiresAt ≤ now then Stop d.id true
      else
        let (d, err) ← transition .planning d .planning none ""
        match err with
        | some err => pure (some err)
        | none => processPlanning templateID d

/-! ### Recovery and monitoring -/

/-- The execution of a deployment was interrupted with its sandbox known. -/
def interrupted (d : Deployment) : Prog Reply (Option WorkerError) := do
  let (d, err) ← fail .recovery d .recovery "deployment execution was interrupted"
  match err with
  | some err => pure (some err)
  | none =>
    let now ← ask .now
    Stop d.id (decide (d.expiresAt ≤ now))

/-- Compensate an interrupted execution. The sandbox of a creation without an outcome is looked
for first. -/
def recoverCreating (d : Deployment) : Prog Reply (Option WorkerError) := do
  if d.sandboxID ≠ "" then interrupted d
  else
    match ← ask (.reconcile d) with
    | .failed => pure (some .provider)
    | .none =>
      let now ← ask (.nowAfterLookup d)
      if now < d.expiresAt + createGrace then pure (some .createPending)
      else
        let (_, err) ← fail .recoveryLost d .recovery
          "interrupted creation has no remaining Sandbox"
        pure err
    | .found handle =>
      if trimSpace handle.sandboxID = "" then pure (some .runtimeMismatch)
      else
        let (d, err) ← persist .recovered (d.withSandbox handle.sandboxID handle.sandboxID)
        match err with
        | some err => pure (some err)
        | none => interrupted d

/-- Whether the process of a deployment runs, if the provider can tell. -/
def probe (d : Deployment) : Prog Reply (Except WorkerError Bool) := do
  match ← ask (.connect d) with
  | .failed => pure (.error .provider)
  | .missing => pure (.ok false)
  | .found _ =>
    match ← ask (.inspect d.process) with
    | .failed => pure (.error .provider)
    | .unknown => pure (.ok false)
    | .ok => pure (.ok true)

def checkRunning (d : Deployment) : Prog Reply (Option WorkerError) := do
  match ← probe d with
  | .error err => pure (some err)
  | .ok running =>
    let now ← ask .now
    if d.expiresAt ≠ 0 ∧ d.expiresAt ≤ now then stop d.id true (some d)
    else if running then pure none
    else
      let (d, err) ← fail .processExit d .processExit "deployment process is no longer running"
      match err with
      | some err => pure (some err)
      | none => Stop d.id false

/-- One step of work on a deployment as it was listed. -/
def advance (templateID : String) (item : Deployment) : Prog Reply (Option WorkerError) := do
  if item.status = .creating then recoverCreating item
  else if item.status = .planning then
    let (_, err) ← transition .requeue item .queued (some .recovery) ""
    pure err
  else
    let now ← ask .now
    if item.expiresAt ≠ 0 ∧ item.expiresAt ≤ now then Stop item.id true
    else if item.status = .queued then process templateID item.id
    else if item.status = .failed ∧ trimSpace item.sandboxID ≠ "" then Stop item.id false
    else if item.status = .stopping then Stop item.id false
    else if item.status = .running then checkRunning item
    else pure none

/-- A lane of the scheduler takes a deployment from its list. -/
def runLane (templateID : String) (kind : WorkKind) (id : String) : Prog Reply Unit := do
  match ← ask (.listWork kind id) with
  | none => pure ()
  | some item =>
    let _ ← advance templateID item
    pure ()

def pruneDeployments (before : Time) (limit : Nat) : Prog Reply Unit := do
  if before = 0 then pure ()
  else
    let records ← ask (.listPrunable before limit)
    if records = [] then pure () else ask (.prune records before)

end CiRunner.Deployments
