import CiRunner.Deployments.Worker

/-! The handlers that create, stop and retry deployments, and the machine that runs
them beside the lanes of the worker. A request with a key names its deployment by
the key, so that a repeated request finds what the first one has made. -/

namespace CiRunner.Deployments

open Text Threads
open CiRunner.State (Time)

/-- The settings of the server. The names of deployments and of requests are digests. -/
structure Settings where
  maxConcurrent : Nat
  templateID : String
  deploymentID : Nat → String → String
  requestHash : RequestIdentity → String

/-! ### Loading -/

/-- The deployment of a request, if the account has access to its repository. -/
def loadAuthorizedDeployment (id : String) : Prog Reply (Option Deployment) := do
  match ← ask (.getDeployment .act id) with
  | .error .notFound =>
    ask (.respond none (.error 404 "" "deployment not found"))
    pure none
  | .error _ =>
    ask (.respond none (.error 500 "" "load deployment"))
    pure none
  | .ok d =>
    if ← ask (.remote .authorize) then pure (some d)
    else
      ask (.respond none (.error 404 "" "deployment not found"))
      pure none

/-! ### Stopping -/

def Deployment.stopRequested (d : Deployment) : Deployment :=
  { d with status :=
      if d.status = .queued then .completed
      else if d.status = .failed then .failed
      else .stopping }

def respondDeployment (status : Nat) (id : String) : Prog Reply Unit := do
  match ← ask (.getDeployment .act id) with
  | .error _ => ask (.respond none (.error 500 "" "load deployment"))
  | .ok d => ask (.respond none (.deployment status d))

def stopAndRespond (id : String) : Prog Reply Unit := do
  match ← Stop id false with
  | none => respondDeployment 200 id
  | some .createPending =>
    match ← ask (.getDeployment .act id) with
    | .error _ => ask (.respond none (.empty 202))
    | .ok d => ask (.respond none (.deployment 202 d))
  | some _ => ask (.respond none (.error 502 "" "deployment cleanup is incomplete"))

def handleUserStopDeployment (id : String) : Prog Reply Unit := do
  match ← loadAuthorizedDeployment id with
  | none => pure ()
  | some d =>
    if d.status.terminal ∧ d.sandboxID = "" then stopAndRespond d.id
    else
      match ← ask (.updateDeployment .stopRequested d.stopRequested) with
      | some _ => ask (.respond none (.error 409 "" "deployment changed while stopping"))
      | none => stopAndRespond d.id

/-! ### Retrying -/

/-- What a retry deploys: the plan of the deployment, that of one of its revisions, or the latest
commit of its source. -/
inductive RetryMode where
  | revision (number : Nat)
  | latest
  deriving DecidableEq, Repr

/-- The retry puts the evidence of another execution in place of that of the last one. -/
def RetryMode.purpose : RetryMode → Purpose
  | .revision 0 => .act
  | _ => .replaceEvidence

/-- The deployment as it is when nothing is left of its last execution. -/
def loadForRetry (d : Deployment) (mode : RetryMode) : Prog Reply (Option Deployment) := do
  if d.sandboxID = "" then pure (some d)
  else
    match ← Stop d.id false with
    | some .createPending =>
      ask (.respond none (.error 409 "deployment_cleanup_pending"
        "Sandbox cleanup is still reconciling; retry after cleanup completes"))
      pure none
    | some _ =>
      ask (.respond none (.error 502 "" "deployment cleanup is incomplete"))
      pure none
    | none =>
      match ← ask (.getDeployment mode.purpose d.id) with
      | .error _ =>
        ask (.respond none (.error 500 "" "load deployment after cleanup"))
        pure none
      | .ok d => pure (some d)

def Deployment.withRevision (d : Deployment) (r : Revision) : Deployment :=
  { d.cleared with
    source := r.source
    pullRequestTitle := r.pullRequestTitle
    plan := r.plan
    template := r.template }

/-- The copy with a plan made from the latest commit. The ref and the path stay. -/
def Deployment.withLatest (d : Deployment) (resolved : Resolved) : Deployment :=
  { d.cleared with
    source := resolved.source
    pullRequestTitle := resolved.pullRequestTitle
    plan := { resolved.plan with ref := d.plan.ref, configPath := d.plan.configPath } }

def hasLatest (ref : String) : Bool := startsWith ref "refs/heads/" || matchesPullRefPattern ref

def planForRetry (d : Deployment) (mode : RetryMode) : Prog Reply (Option Deployment) := do
  match mode with
  | .revision 0 => pure (some d)
  | .revision number =>
    match ← ask (.getRevision d.id number) with
    | .error .notFound =>
      ask (.respond none (.error 404 "" "deployment revision not found"))
      pure none
    | .error _ =>
      ask (.respond none (.error 500 "" "load deployment revision"))
      pure none
    | .ok r => pure (some (d.withRevision r))
  | .latest =>
    if !hasLatest d.plan.ref then
      ask (.respond none (.error 400 "invalid_deployment_retry"
        "latest redeploy is available only for branch or pull request deployments"))
      pure none
    else if ← ask (.remote .resolveSource) then
      let resolved ← ask .resolve
      pure (some (d.withLatest resolved))
    else
      ask (.respond none (.error 502 "deployment_latest_source_failed"
        "failed to resolve the latest repository source"))
      pure none

/-- Admit a retry: one transaction under the lock of the scope. -/
def retryDeploymentWithScopeLimit (d : Deployment) (expiresAt : Time) :
    Prog Reply (Option StoreError) := do
  match ← ask (.lockScope d.scope) with
  | some e => pure (some e)
  | none =>
    match ← ask (.checkQuota d d.id) with
    | some e => pure (some e)
    | none =>
      ask (.commitRetry d expiresAt
        { deploymentID := d.id
          attempt := d.attempt
          eventType := "lifecycle"
          stage := "queued"
          message := bytes "Deployment queued for retry." })

def respondRetry (id : String) (err : Option StoreError) : Prog Reply Unit := do
  match err with
  | none => respondDeployment 202 id
  | some .quotaExceeded =>
    ask (.respond none (.error 429 "deployment_quota_exceeded"
      "deployment scope concurrency limit reached"))
  | some .retryNotAllowed =>
    ask (.respond none (.error 409 ""
      "deployment retry is not allowed in the current state"))
  | some .conflict =>
    ask (.respond none (.error 409 "" "deployment changed while retrying"))
  | some _ => ask (.respond none (.error 500 "" "retry deployment"))

def Deployment.forAccount (d : Deployment) (accountID : Nat) (resolved : Resolved) : Deployment :=
  { d with
    executionAccountID := accountID
    service := resolved.service
    region := resolved.region }

def notConfigured : String :=
  "Configure Sandbox credentials in this account or organization's Preferences before deploying"

def retryPlanned (accountID : Nat) (d : Deployment) : Prog Reply Unit := do
  if trimSpace d.template.id = "" then
    ask (.respond none (.error 409 "deployment_template_required"
      "Create a new deployment with an available Sandbox template"))
  else if !(← ask (.remote .service)) then
    ask (.respond none (.error 409 "deployment_sandbox_not_configured" notConfigured))
  else if !(← ask (.remote .template)) then
    ask (.respond none (.error 409 "deployment_template_unavailable"
      "The selected Sandbox template is unavailable or has no runnable default build"))
  else
    let resolved ← ask .resolve
    let now ← ask .now
    let err ← retryDeploymentWithScopeLimit (d.forAccount accountID resolved) (now + defaultExpiry)
    respondRetry d.id err

def handleUserRetryDeployment (accountID : Nat) (id : String) (mode : RetryMode) :
    Prog Reply Unit := do
  match ← loadAuthorizedDeployment id with
  | none => pure ()
  | some d =>
    if !d.status.terminal then
      ask (.respond none (.error 409 ""
        "deployment retry is not allowed in the current state"))
    else
      match ← loadForRetry d mode with
      | none => pure ()
      | some d =>
        match ← planForRetry d mode with
        | none => pure ()
        | some d => retryPlanned accountID d

/-! ### Creating -/

structure CreateInput where
  installationID : Nat
  repositoryFullName : String
  ref : String
  source : String := ""
  commitSHA : String := ""
  configPath : String := ""
  ttlSeconds : Nat := 0
  template : Template := {}
  deriving DecidableEq, Repr

def defaultPath : String := ".qiniu/deploy.yaml"

def normalizeDeploymentRef (ref source : String) : String :=
  let ref := trimSpace ref
  if source = "branch" then "refs/heads/" ++ ref
  else if source = "tag" then "refs/tags/" ++ ref
  else if source = "pull_request" then "refs/pull/" ++ ref ++ "/head"
  else ref

/-- The path of the configuration; empty if it is not one inside the repository. -/
def normalizeDeploymentConfigPath (value : String) : String :=
  let value := trimSpace value
  if value = "" then defaultPath
  else if startsWith value "/" ∨ 1024 < value.utf8ByteSize ∨ hasControl value ∨
      value.toList.contains '\\' then ""
  else
    let value := cleanPath value
    if value = "." ∨ value = ".." ∨ startsWith value "../" then "" else value

/-- A positive number as it is printed. -/
def isNumber (s : String) : Bool :=
  s != "" && s.toList.all Char.isDigit && s.toList.head? != some '0' &&
    s.toList.foldl (fun n c => 10 * n + (c.toNat - 48)) 0 < 2 ^ 63

def validDeploymentSHA (sha : String) : Bool :=
  sha.toList.length == 40 && sha.toList.all fun c => ('0' ≤ c && c ≤ '9') || ('a' ≤ c && c ≤ 'f')

/-- A hour in seconds, and the shortest and the longest time that can be asked for. -/
def defaultTTLSeconds : Nat := 60 * 60

def minTTLSeconds : Nat := 5 * 60

def maxTTLSeconds : Nat := 24 * 60 * 60

def validRepositoryName (name : String) : Bool :=
  (match (trimSpace name).toList.splitOn '/' with
    | [owner, repository] => owner != [] && repository != []
    | _ => false) &&
  !name.toList.any fun c => c == '\\' || c == '?' || c == '#' || c == '%' || isSpace c || isControl c

def validateCreateDeploymentRequest (input : CreateInput) : Option String :=
  if input.source ≠ "" ∧ input.source ≠ "branch" ∧ input.source ≠ "tag" ∧
      input.source ≠ "pull_request" then
    some "source must be branch, tag or pull_request"
  else if input.commitSHA ≠ "" ∧ !validDeploymentSHA input.commitSHA then
    some "commit_sha must be a full lowercase SHA"
  else if input.source = "pull_request" ∧ !isNumber input.ref then
    some "pull request ref must be a positive number"
  else if input.source = "" ∧ startsWith input.ref "refs/pull/" then
    some "pull requests require source pull_request"
  else if 256 < input.template.id.utf8ByteSize ∨ hasControl input.template.id then
    some "template_id is invalid"
  else if 256 < input.template.name.utf8ByteSize ∨ hasControl input.template.name then
    some "template_name is invalid"
  else if input.installationID = 0 then some "installation_id is required"
  else if !validRepositoryName input.repositoryFullName then
    some "repository_full_name must be owner/repository"
  else if trimSpace input.ref = "" ∨
      256 < (normalizeDeploymentRef input.ref input.source).utf8ByteSize ∨
      hasControl input.ref then
    some "ref must be non-empty and at most 256 bytes including its source prefix"
  else if normalizeDeploymentConfigPath input.configPath = "" then some "config_path is invalid"
  else if 0 < input.ttlSeconds ∧
      (input.ttlSeconds < minTTLSeconds ∨ maxTTLSeconds < input.ttlSeconds) then
    some "ttl_seconds must be between 300 and 86400"
  else none

def CreateInput.normalized (input : CreateInput) : CreateInput :=
  { input with
    ref := normalizeDeploymentRef input.ref input.source
    template :=
      { input.template with
        id := trimSpace input.template.id
        name := trimSpace input.template.name }
    repositoryFullName := trimSpace input.repositoryFullName
    configPath := normalizeDeploymentConfigPath input.configPath }

/-- The fields that are hashed: those of the request that decide what is executed. -/
def deploymentCreateRequestIdentity (input : CreateInput) (installationID repositoryID : Nat) :
    RequestIdentity where
  installationID := installationID
  repositoryID := repositoryID
  ref := trimSpace input.ref
  commitSHA := input.commitSHA
  configPath := normalizeDeploymentConfigPath input.configPath
  templateID := trimSpace input.template.id
  ttlSeconds := if input.ttlSeconds = 0 then defaultTTLSeconds else input.ttlSeconds

/-- Answer with the deployment that there is, if the request is the one that it was created by.
The result says whether there was an answer. -/
def writeDeploymentReplay (settings : Settings) (id : String) (request : CreateRequest) :
    Prog Reply Bool := do
  match ← ask (.getDeployment .act id) with
  | .error .notFound => pure false
  | .error _ =>
    ask (.respond (some request) (.error 500 "" "load deployment"))
    pure true
  | .ok saved =>
    if saved.accountID ≠ request.accountID ∨
        saved.githubInstallationID ≠ request.identity.installationID ∨
        saved.repositoryID ≠ request.identity.repositoryID ∨
        saved.createRequestHash ≠ settings.requestHash request.identity then
      ask (.respond (some request) (.error 409 "deployment_request_conflict"
        "Idempotency-Key was already used for a different deployment request"))
    else ask (.respond (some request) (.deployment 200 saved))
    pure true

/-- Admit a new deployment: one transaction, under the lock of the scope once the id is free. -/
def createDeploymentWithScopeLimit (d : Deployment) : Prog Reply (Option StoreError) := do
  match ← ask (.getDeployment .act d.id) with
  | .ok _ => pure (some .conflict)
  | .error .notFound =>
    match ← ask (.lockScope d.scope) with
    | some e => pure (some e)
    | none =>
      match ← ask (.checkQuota d "") with
      | some e => pure (some e)
      | none =>
        ask (.commitCreate d
          { deploymentID := d.id
            eventType := "lifecycle"
            stage := "queued"
            message := bytes "Deployment queued for execution." })
  | .error e => pure (some e)

def newDeployment (settings : Settings) (id : String) (request : CreateRequest)
    (input : CreateInput) (templateID : String) (resolved : Resolved) (now : Time) : Deployment where
  id := id
  createRequestHash := settings.requestHash request.identity
  accountID := request.accountID
  executionAccountID := request.accountID
  scope := resolved.scope
  githubInstallationID := request.identity.installationID
  repositoryID := request.identity.repositoryID
  repositoryFullName := resolved.repositoryFullName
  source := resolved.source
  pullRequestTitle := resolved.pullRequestTitle
  plan := { resolved.plan with ref := input.ref, configPath := input.configPath }
  service := resolved.service
  region := resolved.region
  template := { input.template with id := templateID }
  expiresAt :=
    now + (if input.ttlSeconds = 0 then defaultTTLSeconds else input.ttlSeconds) * 1000
  createdAt := now
  updatedAt := now

/-- Answer a request whose deployment could not be admitted. -/
def respondRefused (settings : Settings) (id : String) (request : CreateRequest) (e : StoreError) :
    Prog Reply Unit := do
  if e = .quotaExceeded then
    ask (.respond (some request) (.error 429 "deployment_quota_exceeded"
      "deployment scope concurrency limit reached"))
  else
    let answered ← if request.key ≠ "" ∧ e ≠ .audit then writeDeploymentReplay settings id request
      else pure false
    if answered then pure ()
    else ask (.respond (some request) (.error 500 "" "persist deployment"))

/-- Admit a request that has not been answered before. -/
def admitDeployment (settings : Settings) (id : String) (request : CreateRequest)
    (input : CreateInput) (resolved : Resolved) : Prog Reply Unit := do
  let templateID := if input.template.id = "" then trimSpace settings.templateID
    else input.template.id
  if templateID = "" then
    ask (.respond (some request) (.error 400 "deployment_template_required"
      "Select a Sandbox template before deploying"))
  else if !(← ask (.remote .service)) then
    ask (.respond (some request) (.error 409 "deployment_sandbox_not_configured" notConfigured))
  else if !(← ask (.remote .template)) then
    ask (.respond (some request) (.error 409 "deployment_template_unavailable"
      "The selected Sandbox template is unavailable or has no runnable default build"))
  else if !(← ask (.remote .resolveSource)) then
    ask (.respond (some request) (.error 502 "commit_resolution_failed"
      "failed to resolve repository ref"))
  else
    let now ← ask .now
    let d := newDeployment settings id request input templateID resolved now
    match ← createDeploymentWithScopeLimit d with
    | none => ask (.respond (some request) (.deployment 201 d))
    | some e => respondRefused settings id request e

/-- The key of a request is short and printable. -/
def invalidKey (key : String) : Bool := 128 < key.utf8ByteSize || hasControl key

def handleUserCreateDeployment (settings : Settings) (accountID : Nat) (key : String)
    (input : CreateInput) : Prog Reply Unit := do
  match validateCreateDeploymentRequest input with
  | some message => ask (.respond none (.error 400 "invalid_deployment" message))
  | none =>
    let input := input.normalized
    let key := trimSpace key
    if invalidKey key then
      ask (.respond none (.error 400 "invalid_deployment" "Idempotency-Key is invalid"))
    else if !(← ask (.remote .authorize)) then
      ask (.respond none (.error 403 "repository_access_forbidden"
        "repository is not accessible through this GitHub installation and user session"))
    else
      let resolved ← ask .resolve
      let request : CreateRequest :=
        ⟨accountID, key, deploymentCreateRequestIdentity input input.installationID
          resolved.repositoryID⟩
      let id ← if key = "" then ask .newDeploymentID else pure (settings.deploymentID accountID key)
      let answered ← if key ≠ "" then writeDeploymentReplay settings id request else pure false
      if answered then pure () else admitDeployment settings id request input resolved

/-! ### The machine -/

inductive Op where
  | lane (kind : WorkKind) (id : String)
  | process (id : String)
  | workerStop (id : String) (expired : Bool)
  | stop (id : String)
  | retry (accountID : Nat) (id : String) (mode : RetryMode)
  | create (accountID : Nat) (key : String) (input : CreateInput)
  | prune (before : Time) (limit : Nat)
  | fillTitle (id ref title : String)
  deriving Repr

def prog (settings : Settings) : Op → Prog Reply Unit
  | .lane kind id => runLane settings.templateID kind id
  | .process id => do
    let _ ← process settings.templateID id
    pure ()
  | .workerStop id expired => do
    let _ ← Stop id expired
    pure ()
  | .stop id => handleUserStopDeployment id
  | .retry accountID id mode => handleUserRetryDeployment accountID id mode
  | .create accountID key input => handleUserCreateDeployment settings accountID key input
  | .prune before limit => pruneDeployments before limit
  | .fillTitle id ref title => ask (.fillTitle id ref title)

def machine (settings : Settings) : Machine Reply State Choice Op where
  serve := serve settings.maxConcurrent
  prog := prog settings
  enabled _ _ := true
  restart := State.restart

end CiRunner.Deployments
