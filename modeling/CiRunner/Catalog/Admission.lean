import CiRunner.Catalog.Specs
import CiRunner.State.Record

/-! The way of a workflow job from the webhook to the start of its runner, as far as the
Runner Specs decide it. Admission matches the labels of the job against the specs of the
installation's scope first, by the key of the labels, and then against the global specs,
label by label. The request it creates names the spec and keeps the labels of the job;
the start loads the spec by its name and compares the labels once more. -/

namespace CiRunner.Catalog

open Tables Text State

variable {Key : Type} [DecidableEq Key] (lower : String → String) (digest : List String → Key)

/-! ### Matching -/

structure ProfileMatch where
  repositoryFullName : String
  labels : List String
  profile : Option RunnerProfile := none
  source : String := ""
  scopeType : String := ""
  scopeID : Int := 0
  reason : String := ""
  deriving DecidableEq, Repr

/-- The order in which matching specs are preferred. -/
def precedence (p : RunnerProfile) : Int ×ₗ Int ×ₗ String :=
  toLex (-p.priority, toLex (-(p.labels.length : Int), p.name))

def selectMatchingProfile (profiles : List RunnerProfile) (labels : List String) :
    Option RunnerProfile :=
  let candidates := ordered precedence profiles fun p =>
    p.enabled && labelsMatch lower p.requiredLabels labels && labelsMatch lower labels p.labels
  candidates.head?

def profileMatchFromCandidates (repositoryFullName : String) (labels : List String)
    (profiles : List RunnerProfile) : ProfileMatch :=
  match selectMatchingProfile lower profiles labels with
  | some p => { repositoryFullName, labels, profile := some p }
  | none => { repositoryFullName, labels, reason := "profile_labels_not_matched" }

def Specs.matchProfile (s : Specs Key) (repositoryFullName : String) (labels : List String) :
    ProfileMatch :=
  { profileMatchFromCandidates lower repositoryFullName labels s.listProfiles with
    source := "global" }

def Specs.matchProfileForScope (s : Specs Key) (scope : RunnerProfileScope)
    (repositoryFullName : String) (labels : List String) : Except CatalogError ProfileMatch := do
  let profiles ← s.listScopedProfiles scope
  let found := match normalizeWorkflowLabels lower digest labels with
    | .ok (_, labelKey) => profiles.find? fun p : ScopedRunnerProfile Key => p.labelKey = labelKey
    | .error _ => none
  match found with
  | some p =>
    let found : ProfileMatch :=
      { repositoryFullName, labels, source := "scoped_custom", scopeType := scope.type,
        scopeID := scope.id }
    if p.enabled then return { found with profile := some p.runnerProfile }
    else return { found with reason := "profile_scope_disabled" }
  | none =>
    return { profileMatchFromCandidates lower repositoryFullName labels s.listProfiles with
      source := "global", scopeType := scope.type, scopeID := scope.id }

/-- What the store knows of GitHub installations: the local account of a personal one, and the
type of the owner's account. -/
structure Installations where
  accountScope : Int → Option Int
  ownerType : Int → Option String

/-- The scope whose specs a job of the installation may use. -/
def Installations.runnerProfileScopeForInstallation (inst : Installations) (installationID : Int) :
    Option RunnerProfileScope :=
  if installationID ≤ 0 then none
  else
    match (inst.accountScope installationID).filter (0 < ·) with
    | some accountID => some ⟨"account", accountID⟩
    | none =>
      match inst.ownerType installationID with
      | some type =>
        if type = "Organization" ∨ type = "organization" then
          some ⟨"github_installation", installationID⟩
        else none
      | none => none

def Specs.matchProfileForAdmission (s : Specs Key) (inst : Installations) (repository : String)
    (installationID : Int) (labels : List String) : Except CatalogError ProfileMatch :=
  match inst.runnerProfileScopeForInstallation installationID with
  | some scope => s.matchProfileForScope lower digest scope repository labels
  | none => .ok (s.matchProfile lower repository labels)

/-! ### Requests -/

/-- A request row, as far as its spec is concerned. -/
structure RunnerRequest where
  id : String
  source : String
  jobID : Int := 0
  githubInstallationID : Int := 0
  repositoryFullName : String
  requestedLabels : List String
  labels : List String
  profileName : String := ""
  profileSource : String := ""
  profileScopeType : String := ""
  profileScopeID : Int := 0
  runnerGroup : String := ""
  status : Status := .queued
  failureStage : String := ""
  failureReason : String := ""
  deriving DecidableEq, Repr

structure Store (Key : Type) extends Specs Key where
  requests : Table RunnerRequest.id

/-- Insert a request, unless there is one with its id or for its job. A request without
requested labels gets those of its spec. -/
def Store.createRequest (s : Store Key) (req : RunnerRequest) :
    Except CatalogError (Bool × Store Key) :=
  let req := { req with
    id := sanitizeID req.id
    requestedLabels := if req.requestedLabels.isEmpty then req.labels else req.requestedLabels }
  if req.id = "" then .error (.invalid "request id is empty")
  else if (s.requests.find req.id).isSome ∨
      (req.jobID ≠ 0 ∧ s.requests.rows.any fun r => r.jobID = req.jobID) then .ok (false, s)
  else .ok (true, { s with requests := s.requests.insert req })

def Store.readRequest (s : Store Key) (id : String) : Option RunnerRequest :=
  s.requests.find (sanitizeID id)

structure WorkflowJob where
  id : Int
  labels : List String
  deriving DecidableEq, Repr

/-- Admit a job of the webhook. The answer says whether a queued request was created. -/
def Store.enqueueWorkflowJob (s : Store Key) (inst : Installations) (repositoryAllowed : Bool)
    (repositoryFullName : String) (installationID : Int) (job : WorkflowJob) :
    Except CatalogError (Bool × Store Key) := do
  let req : RunnerRequest :=
    { id := toString job.id, source := "github_webhook", jobID := job.id,
      githubInstallationID := installationID, repositoryFullName,
      requestedLabels := job.labels, labels := job.labels }
  -- a rejected job leaves a failed row, so that it is not asked about again
  let reject (req : RunnerRequest) (reason : String) := do
    let (_, s) ← s.createRequest
      { req with status := .failed, failureStage := "admission", failureReason := reason }
    return (false, s)
  if ¬repositoryAllowed then reject req "repository_not_allowed"
  else
    let found ← s.matchProfileForAdmission lower digest inst repositoryFullName installationID
      job.labels
    let req := { req with
      profileSource := found.source, profileScopeType := found.scopeType,
      profileScopeID := found.scopeID }
    match found.profile with
    | none => reject req found.reason
    | some p =>
      if (s.readRequest req.id).isSome then return (false, s)
      else
        s.createRequest
          { req with profileName := p.name, runnerGroup := p.runnerGroup, labels := p.labels }

/-! ### The start -/

def Specs.profileForRunnerRequest (s : Specs Key) (req : RunnerRequest) :
    Except CatalogError RunnerProfile := do
  if req.profileSource = "" ∨ req.profileSource = "global" then s.getProfile req.profileName
  else if req.profileSource = "scoped_custom" ∧ req.profileScopeType ≠ "" ∧
      0 < req.profileScopeID then
    let p ← s.getScopedProfile ⟨req.profileScopeType, req.profileScopeID⟩ req.profileName
    return p.runnerProfile
  else throw .notFound

inductive StartError where
  | profileLookup (profileName : String) (error : CatalogError)
  | profileDisabled (profileName : String)
  | labelsNotSatisfied (profileName : String)
  deriving DecidableEq, Repr

def StartError.stage : StartError → String
  | .profileLookup .. => "profile_lookup"
  | .profileDisabled _ | .labelsNotSatisfied _ => "profile_validation"

def validateRequestedProfile (p : RunnerProfile) (requestedLabels : List String) :
    Except StartError Unit :=
  if ¬p.enabled then .error (.profileDisabled p.name)
  else if 0 < requestedLabels.length ∧
      (¬labelsMatch lower p.requiredLabels requestedLabels ∨
        ¬labelsMatch lower requestedLabels p.labels) then .error (.labelsNotSatisfied p.name)
  else .ok ()

def Store.startProfile (s : Store Key) (req : RunnerRequest) : Except StartError RunnerProfile := do
  match s.profileForRunnerRequest req with
  | .error e => throw (.profileLookup req.profileName e)
  | .ok p =>
    validateRequestedProfile lower p req.requestedLabels
    return p

end CiRunner.Catalog
