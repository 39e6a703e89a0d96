import CiRunner.State.Status
import CiRunner.Text

/-! A row of `runner_requests`, with the columns that the lifecycle of a request
reads or writes. A time is a number of milliseconds; zero is the zero time of the
source, which the store keeps as NULL. -/

namespace CiRunner.State

open Text

abbrev Time := Nat

inductive TerminationSource where
  | processExit | workflowJobWebhook | manualStop | recoveryCleanup | failureCleanup | idleCleanup
  deriving DecidableEq, Repr

/-- Where a request failed. -/
inductive Stage where
  | admission | profileLookup | profileValidation | githubJobStatus | githubRunnerGroup
  | sandboxConfig | templateResolution | githubRunnerDownloads | githubRegistration
  | githubRunnerURL | sandboxStart | sweeperCreateTimeout | runnerExit | stop | cleanup
  | recovery | sandboxTimeout
  deriving DecidableEq, Repr

def Stage.text : Stage → String
  | .admission => "admission"
  | .profileLookup => "profile_lookup"
  | .profileValidation => "profile_validation"
  | .githubJobStatus => "github_job_status"
  | .githubRunnerGroup => "github_runner_group"
  | .sandboxConfig => "sandbox_config"
  | .templateResolution => "template_resolution"
  | .githubRunnerDownloads => "github_runner_downloads"
  | .githubRegistration => "github_registration"
  | .githubRunnerURL => "github_runner_url"
  | .sandboxStart => "sandbox_start"
  | .sweeperCreateTimeout => "sweeper_create_timeout"
  | .runnerExit => "runner_exit"
  | .stop => "stop"
  | .cleanup => "cleanup"
  | .recovery => "recovery"
  | .sandboxTimeout => "sandbox_timeout"

/-- The sandbox service and sponsor that an attempt was started with. -/
structure ServiceSnapshot where
  apiURL : String := ""
  apiKeyEncrypted : String := ""
  configSource : String := ""
  sponsorInstallationID : Int := 0
  sponsorSourceRepositoryID : Int := 0
  sponsorSourceRepositoryFullName : String := ""
  sponsorAuthorizationReason : String := ""
  deriving DecidableEq, Repr

def ServiceSnapshot.trim (s : ServiceSnapshot) : ServiceSnapshot :=
  ⟨trimSpace s.apiURL, trimSpace s.apiKeyEncrypted, trimSpace s.configSource,
    s.sponsorInstallationID, s.sponsorSourceRepositoryID,
    trimSpace s.sponsorSourceRepositoryFullName, trimSpace s.sponsorAuthorizationReason⟩

structure Environment where
  sandboxRegion : String := ""
  resolvedTemplateID : String := ""
  templateVersion : String := ""
  runnerVersion : String := ""
  effectiveRunnerVersion : String := ""
  deriving DecidableEq, Repr

def Environment.trim (e : Environment) : Environment :=
  ⟨trimSpace e.sandboxRegion, trimSpace e.resolvedTemplateID, trimSpace e.templateVersion,
    trimSpace e.runnerVersion, trimSpace e.effectiveRunnerVersion⟩

/-- The result of the request's job as observed on GitHub. -/
structure JobResult where
  name : String := ""
  status : String := ""
  conclusion : String := ""
  runnerName : String := ""
  observedAt : Time := 0
  deriving DecidableEq, Repr

def JobResult.trim (j : JobResult) : JobResult :=
  ⟨trimSpace j.name, trimSpace j.status, trimSpace j.conclusion, trimSpace j.runnerName,
    j.observedAt⟩

structure RunnerState where
  id : String
  status : Status := .queued
  gitHubInstallationID : Int := 0
  repositoryFullName : String := ""
  labels : List String := []
  runnerGroup : String := ""
  runnerName : String := ""
  sandboxID : String := ""
  service : ServiceSnapshot := {}
  environment : Environment := {}
  processPID : Nat := 0
  workflowJobID : Nat := 0
  assignedJobID : Nat := 0
  assignedJobName : String := ""
  terminationSource : Option TerminationSource := none
  runnerExitCode : Option Int := none
  jobResult : JobResult := {}
  error : String := ""
  failureStage : Option Stage := none
  failureReason : String := ""
  lastErrorCode : String := ""
  lastErrorMessage : String := ""
  lastErrorRetryable : Bool := false
  retryCount : Nat := 0
  createdAt : Time := 0
  updatedAt : Time := 0
  lastAttemptAt : Time := 0
  nextRetryAt : Time := 0
  creatingAt : Time := 0
  runningAt : Time := 0
  stoppingAt : Time := 0
  completedAt : Time := 0
  failedAt : Time := 0
  leaseOwner : String := ""
  leaseExpiresAt : Time := 0
  version : Nat := 0
  deriving DecidableEq, Repr

def sanitizeID (id : String) : String :=
  String.ofList (replaceDots (replaceChar (replaceChar (trimSpace id) '/' '-') '\\' '-').toList)

theorem isSpace_dash (c d : Char) (h : isSpace c = false) :
    isSpace (if c = d then '-' else c) = false := by
  split
  · rfl
  · exact h

theorem trimmed_sanitizeID (id : String) : Trimmed (sanitizeID id).toList ∧
    ∀ c ∈ (sanitizeID id).toList, c ≠ '/' ∧ c ≠ '\\' := by
  simp only [sanitizeID, replaceChar, trimSpace, String.toList_ofList]
  constructor
  · exact (((trimmed_trim id.toList).map (isSpace_dash · '/')).map
      (isSpace_dash · '\\')).replaceDots
  · intro c hc
    rcases mem_replaceDots hc with rfl | hc
    · decide
    · simp only [List.map_map, List.mem_map, Function.comp_apply] at hc
      obtain ⟨d, -, rfl⟩ := hc
      grind

theorem sanitizeID_sanitizeID (id : String) : sanitizeID (sanitizeID id) = sanitizeID id := by
  obtain ⟨ht, hno⟩ := trimmed_sanitizeID id
  have hdots : replaceDots (sanitizeID id).toList = (sanitizeID id).toList := by
    simp only [sanitizeID, String.toList_ofList, replaceDots_replaceDots]
  conv_lhs => rw [sanitizeID]
  simp only [replaceChar, trimSpace, String.toList_ofList, ht.trim_eq]
  rw [List.map_congr_left (fun c hc => if_neg (hno c hc).1), List.map_id',
    List.map_congr_left (fun c hc => if_neg (hno c hc).2), List.map_id', hdots, String.ofList_toList]

theorem sanitizeID_toString (n : Nat) : sanitizeID (toString n) = toString n := by
  have hdigit : ∀ c ∈ (toString n).toList, c.isDigit = true := by
    rw [Nat.toString_eq_ofList_toDigits, String.toList_ofList]
    exact fun c hc => Nat.isDigit_of_mem_toDigits (by decide) (by decide) hc
  have hne : ∀ d : Char, d.isDigit = false → ∀ c ∈ (toString n).toList, c ≠ d := by
    rintro d hd c hc rfl
    rw [hdigit c hc] at hd
    cases hd
  have htrimmed : Trimmed (toString n).toList :=
    ⟨fun c hc => isSpace_of_isDigit (hdigit c (List.mem_of_mem_head? hc)),
      fun c hc => isSpace_of_isDigit (hdigit c (List.mem_of_getLast? hc))⟩
  rw [sanitizeID]
  simp only [replaceChar, trimSpace, String.toList_ofList, htrimmed.trim_eq]
  rw [List.map_congr_left (fun c hc => if_neg (hne '/' (by decide) c hc)), List.map_id',
    List.map_congr_left (fun c hc => if_neg (hne '\\' (by decide) c hc)), List.map_id',
    replaceDots_of_notMem (fun h => hne '.' (by decide) '.' h rfl), String.ofList_toList]

-- Proofs about rows use these facts only; unfolding would evaluate strings.
attribute [irreducible] sanitizeID

def sanitizeRunnerName (name : String) : String :=
  replaceChar (replaceChar (trimSpace name) '/' '-') '\\' '-'

theorem sanitizeRunnerName_of_trimmed {name : String} (ht : Trimmed name.toList)
    (hno : ∀ c ∈ name.toList, c ≠ '/' ∧ c ≠ '\\') : sanitizeRunnerName name = name := by
  simp only [sanitizeRunnerName, replaceChar, trimSpace, String.toList_ofList, ht.trim_eq]
  rw [List.map_congr_left (fun c hc => if_neg (hno c hc).1), List.map_id',
    List.map_congr_left (fun c hc => if_neg (hno c hc).2), List.map_id', String.ofList_toList]

theorem sanitizeRunnerName_sanitizeRunnerName (name : String) :
    sanitizeRunnerName (sanitizeRunnerName name) = sanitizeRunnerName name := by
  apply sanitizeRunnerName_of_trimmed
  · simp only [sanitizeRunnerName, replaceChar, trimSpace, String.toList_ofList]
    exact ((trimmed_trim name.toList).map (isSpace_dash · '/')).map (isSpace_dash · '\\')
  · intro c hc
    simp only [sanitizeRunnerName, replaceChar, trimSpace, String.toList_ofList, List.map_map,
      List.mem_map, Function.comp_apply] at hc
    obtain ⟨d, -, rfl⟩ := hc
    grind

theorem sanitizeRunnerName_default (id : String) :
    sanitizeRunnerName ("e2b-" ++ sanitizeID id) = "e2b-" ++ sanitizeID id := by
  obtain ⟨ht, hno⟩ := trimmed_sanitizeID id
  have hlist : ("e2b-" ++ sanitizeID id).toList = "e2b-".toList ++ (sanitizeID id).toList :=
    String.toList_append
  apply sanitizeRunnerName_of_trimmed
  · rw [hlist]
    constructor
    · rintro c hc
      cases hc
      decide
    · intro c hc
      rw [List.getLast?_append] at hc
      cases hlast : (sanitizeID id).toList.getLast? with
      | none =>
        rw [hlast] at hc
        cases hc
        decide
      | some d =>
        rw [hlast] at hc
        cases hc
        exact ht.last _ hlast
  · intro c hc
    rw [hlist, List.mem_append] at hc
    rcases hc with hc | hc
    · revert c
      decide
    · exact hno c hc

namespace RunnerState

def clearRunnerEnvironmentSnapshot (st : RunnerState) : RunnerState := { st with environment := {} }

def clearSandboxServiceSnapshot (st : RunnerState) : RunnerState := { st with service := {} }

def clearLease (st : RunnerState) : RunnerState := { st with leaseOwner := "", leaseExpiresAt := 0 }

/-- A time that is filled in once. -/
def firstTime (t now : Time) : Time := if t = 0 then now else t

def applyStateTimestamps (st : RunnerState) (now : Time) : RunnerState :=
  match st.status with
  | .queued => st
  | .creating => { st with creatingAt := firstTime st.creatingAt now }
  | .running =>
    { st with creatingAt := firstTime st.creatingAt now, runningAt := firstTime st.runningAt now }
  | .stopping => { st with stoppingAt := firstTime st.stoppingAt now }
  | .completed => { st with completedAt := firstTime st.completedAt now }
  | .failed => { st with failedAt := firstTime st.failedAt now }

/-- The row that a write of `st` over `current` leaves: the columns it sets, at the next version,
beside those it does not set. -/
def written (st current : RunnerState) (now : Time) : RunnerState :=
  let st := st.applyStateTimestamps now
  { st with
    id := current.id
    gitHubInstallationID := current.gitHubInstallationID
    labels := current.labels
    workflowJobID := current.workflowJobID
    createdAt := current.createdAt
    runnerName := sanitizeRunnerName st.runnerName
    service := st.service.trim
    environment := st.environment.trim
    jobResult := st.jobResult.trim
    updatedAt := now
    version := st.version + 1 }

@[simp] theorem version_applyStateTimestamps (st : RunnerState) (now : Time) :
    (st.applyStateTimestamps now).version = st.version := by
  unfold applyStateTimestamps
  split <;> rfl

@[simp] theorem version_written (st current : RunnerState) (now : Time) :
    (st.written current now).version = st.version + 1 := by
  simp [written]

@[simp] theorem id_written (st current : RunnerState) (now : Time) :
    (st.written current now).id = current.id := rfl

/-- The update of a claim. The version is that of the row the claim has selected before. -/
def claimed (r : RunnerState) (version : Nat) (workerID : String) (now leaseTTL : Time) :
    RunnerState :=
  { r with
    leaseOwner := workerID
    leaseExpiresAt := now + leaseTTL
    lastAttemptAt := now
    updatedAt := now
    version := version + 1 }

/-- Whether the request may be retried by hand. -/
def retryAllowed (r : RunnerState) : Bool :=
  match r.status with
  | .failed => true
  | .queued => r.nextRetryAt ≠ 0 && r.lastErrorRetryable
  | _ => false

def retried (r : RunnerState) (version : Nat) (now : Time) : RunnerState :=
  { r with
    status := .queued
    error := ""
    failureStage := none
    failureReason := ""
    lastErrorCode := ""
    lastErrorMessage := ""
    lastErrorRetryable := false
    sandboxID := ""
    environment := {}
    processPID := 0
    assignedJobID := 0
    assignedJobName := ""
    terminationSource := none
    runnerExitCode := none
    nextRetryAt := 0
    leaseOwner := ""
    leaseExpiresAt := 0
    creatingAt := 0
    runningAt := 0
    stoppingAt := 0
    completedAt := 0
    failedAt := 0
    service := {}
    updatedAt := now
    version := version + 1 }

end RunnerState

end CiRunner.State
