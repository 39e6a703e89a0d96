import CiRunner.State.Record

/-! A deployment and its revisions, as rows of `deployments` and
`deployment_revisions`, with the columns that admission, the worker and the history
read or write. An empty status of a new deployment is the status queued. -/

namespace CiRunner.Deployments

open Text
open CiRunner.State (Time)

inductive DeploymentStatus where
  | queued | planning | creating | running | stopping | completed | expired | failed
  deriving DecidableEq, Repr

namespace DeploymentStatus

def text : DeploymentStatus → String
  | .queued => "queued"
  | .planning => "planning"
  | .creating => "creating"
  | .running => "running"
  | .stopping => "stopping"
  | .completed => "completed"
  | .expired => "expired"
  | .failed => "failed"

/-- The statuses that a deployment is retried or pruned from. -/
def terminal : DeploymentStatus → Bool
  | .completed | .expired | .failed => true
  | _ => false

/-- The statuses of a deployment that work is to be done for. -/
def active : DeploymentStatus → Bool
  | .queued | .planning | .creating | .running | .stopping => true
  | _ => false

end DeploymentStatus

inductive ApplyStage where
  | preparing | cloning | verifying | installing | starting | probing | ready
  deriving DecidableEq, Repr

/-- Where a deployment failed, or which step it is in. -/
inductive Stage where
  | planRestore | source | template | sandboxCreate | expiryCleanup | recovery | processExit
  | cleanup
  | apply (stage : ApplyStage)
  deriving DecidableEq, Repr

def ApplyStage.text : ApplyStage → String
  | .preparing => "preparing"
  | .cloning => "cloning"
  | .verifying => "verifying"
  | .installing => "installing"
  | .starting => "starting"
  | .probing => "probing"
  | .ready => "ready"

def Stage.text : Stage → String
  | .planRestore => "plan_restore"
  | .source => "source"
  | .template => "template"
  | .sandboxCreate => "sandbox_create"
  | .expiryCleanup => "expiry_cleanup"
  | .recovery => "recovery"
  | .processExit => "process_exit"
  | .cleanup => "cleanup"
  | .apply stage => stage.text

/-- The owner of a quota: an account or an installation. -/
inductive ScopeType where
  | account | githubInstallation
  deriving DecidableEq, Repr

structure Scope where
  type : ScopeType
  id : Nat
  deriving DecidableEq, Repr

/-- Where the commit was found. -/
structure Source where
  repositoryID : Nat := 0
  repositoryFullName : String := ""
  ref : String := ""
  deriving DecidableEq, Repr

structure Plan where
  ref : String := ""
  commitSHA : String := ""
  configPath : String := ""
  snapshotVersion : Nat := 0
  specHash : String := ""
  specJSONEncrypted : String := ""
  deriving DecidableEq, Repr

structure Template where
  id : String := ""
  name : String := ""
  cpu : Nat := 0
  memoryMB : Nat := 0
  diskMB : Nat := 0
  deriving DecidableEq, Repr

structure Service where
  apiURL : String := ""
  apiKeyEncrypted : String := ""
  configSource : String := ""
  deriving DecidableEq, Repr

/-- The process of the application, by the runtime that it runs in. -/
structure ProcessRef where
  runtimeID : String := ""
  id : String := ""
  tag : String := ""
  deriving DecidableEq, Repr

/-- Why a deployment failed; while it runs, the step that it is in. -/
structure Failure where
  stage : Option Stage := none
  reason : String := ""
  deriving DecidableEq, Repr

/-- When a deployment first had a status; zero if it never had it. -/
structure Timestamps where
  planningAt : Time := 0
  creatingAt : Time := 0
  runningAt : Time := 0
  stoppingAt : Time := 0
  completedAt : Time := 0
  failedAt : Time := 0
  deriving DecidableEq, Repr

structure Deployment where
  id : String
  createRequestHash : String := ""
  accountID : Nat
  executionAccountID : Nat := 0
  scope : Scope
  githubInstallationID : Nat
  repositoryID : Nat
  repositoryFullName : String
  source : Source := {}
  pullRequestTitle : String := ""
  revisionNumber : Nat := 0
  plan : Plan
  status : DeploymentStatus := .queued
  sandboxID : String := ""
  attempt : Nat := 0
  process : ProcessRef := {}
  service : Service := {}
  region : String := ""
  template : Template := {}
  endpoint : String := ""
  failure : Failure := {}
  error : String := ""
  expiresAt : Time
  createdAt : Time := 0
  timestamps : Timestamps := {}
  updatedAt : Time := 0
  version : Nat := 0
  deriving DecidableEq, Repr

/-- What is kept of one execution of a deployment. -/
structure Revision where
  deploymentID : String
  number : Nat
  executionAccountID : Nat
  source : Source
  pullRequestTitle : String
  plan : Plan
  template : Template
  status : DeploymentStatus
  sandboxID : String
  region : String
  endpoint : String
  failure : Failure
  expiresAt : Time
  runningAt : Time
  createdAt : Time
  updatedAt : Time
  eventCount : Int := 0
  eventBytes : Int := 0
  eventBudgetInitialized : Bool := false
  deriving DecidableEq, Repr

/-! ### Normalisation -/

/-- A repository name: an owner and a name, neither of them with a slash or a space. -/
def matchesRepositoryPattern (s : String) : Bool :=
  match s.toList.splitOn '/' with
  | [owner, name] =>
    let plain := fun c => !(c == ' ' || c == '\t' || c == '\n' || c == '\r' || c.val == 0x0C)
    owner != [] && name != [] && owner.all plain && name.all plain
  | _ => false

/-- A full commit identifier in lower case. -/
def validDeploymentCommit (value : String) : Bool :=
  let digits := (trimSpace value).toList
  (digits.length == 40 || digits.length == 64) &&
    digits.all fun c => ('0' ≤ c && c ≤ '9') || ('a' ≤ c && c ≤ 'f')

def validConfigPath (path : String) : Bool :=
  !(path == "." || 1024 < path.utf8ByteSize || hasControl path || startsWith path "/" ||
    startsWith path "../" || path == ".." || path.toList.contains '\\')

/-- The deployment with its texts trimmed, or what is wrong with it. -/
def normalizeDeployment (d : Deployment) : Except String Deployment :=
  let id := trimSpace d.id
  let repositoryFullName := trimSpace d.repositoryFullName
  let ref := trimSpace d.plan.ref
  let commitSHA := trimSpace d.plan.commitSHA
  let configPath := cleanPath (trimSpace d.plan.configPath)
  let templateName := trimSpace d.template.name
  if id = "" ∨ 128 < id.utf8ByteSize ∨ hasControl id then .error "deployment id is invalid"
  else if d.accountID = 0 ∨ d.scope.id = 0 ∨ d.githubInstallationID = 0 ∨ d.repositoryID = 0 then
    .error "deployment ownership is invalid"
  else if !matchesRepositoryPattern repositoryFullName || hasControl repositoryFullName then
    .error "deployment repository is invalid"
  else if ref = "" ∨ 256 < ref.utf8ByteSize ∨ hasControl ref then
    .error "deployment ref is invalid"
  else if !validDeploymentCommit commitSHA then .error "deployment commit is invalid"
  else if !validConfigPath configPath then .error "deployment config path is invalid"
  else if d.plan.snapshotVersion = 0 ∨ trimSpace d.plan.specHash = "" ∨
      trimSpace d.plan.specJSONEncrypted = "" then
    .error "deployment plan evidence is incomplete"
  else if 256 < templateName.utf8ByteSize ∨ hasControl templateName then
    .error "deployment template name is invalid"
  else if d.expiresAt = 0 then .error "deployment expiry is required"
  else .ok
    { d with
      id := id
      repositoryFullName := repositoryFullName
      plan := { d.plan with ref := ref, commitSHA := commitSHA, configPath := configPath }
      template := { d.template with name := templateName } }

theorem normalizeDeployment_ok {d d' : Deployment} (h : normalizeDeployment d = .ok d') :
    ∃ repositoryFullName plan name, d' =
      { d with
        id := trimSpace d.id
        repositoryFullName := repositoryFullName
        plan := plan
        template := { d.template with name := name } } := by
  simp only [normalizeDeployment] at h
  repeat' split at h
  all_goals cases h
  exact ⟨_, _, _, rfl⟩

theorem plan_of_normalizeDeployment {d d' : Deployment} (h : normalizeDeployment d = .ok d') :
    d'.plan.ref = trimSpace d.plan.ref ∧
      d'.plan.configPath = cleanPath (trimSpace d.plan.configPath) := by
  simp only [normalizeDeployment] at h
  repeat' split at h
  all_goals cases h
  exact ⟨rfl, rfl⟩

theorem validConfigPath_of_normalizeDeployment {d : Deployment}
    (h : normalizeDeployment d = .error "deployment config path is invalid") :
    validConfigPath (cleanPath (trimSpace d.plan.configPath)) = false := by
  simp only [normalizeDeployment] at h
  repeat' split at h
  all_goals simp_all

end CiRunner.Deployments
