import CiRunner.Tables.Keyed
import CiRunner.Tables.Pages
import CiRunner.State.Record
import Mathlib.Data.Prod.Lex

/-! The statements of the store on `runner_requests`, each of them atomic. What an
operation of the store does with several of them is a program over these. -/

namespace CiRunner.State

open Tables

abbrev Requests := Table RunnerState.id

structure NewRequest where
  id : String
  gitHubInstallationID : Int := 0
  repositoryFullName : String := ""
  labels : List String := []
  runnerGroup : String := ""
  runnerName : String := ""
  jobID : Nat := 0
  createdAt : Time := 0

namespace NewRequest

/-- The row of a new request. None of the callers has a sandbox service for it yet. -/
def row (req : NewRequest) (now : Time) : RunnerState where
  id := sanitizeID req.id
  gitHubInstallationID := req.gitHubInstallationID
  repositoryFullName := req.repositoryFullName
  labels := req.labels
  runnerGroup := req.runnerGroup
  runnerName :=
    let name := sanitizeRunnerName req.runnerName
    if name = "" then "e2b-" ++ sanitizeID req.id else name
  workflowJobID := req.jobID
  createdAt := if req.createdAt = 0 then now else req.createdAt
  updatedAt := now

def rejectedRow (req : NewRequest) (reason : String) (now : Time) : RunnerState :=
  { req.row now with
    status := .failed
    failureStage := some .admission
    failureReason := Text.trimSpace reason
    error := "runner admission rejected"
    failedAt := now }

end NewRequest

namespace Requests

/-- Insert a row, or do nothing where its id or its job has one. -/
def createRequest (t : Requests) (r : RunnerState) : Requests :=
  if r.id = "" then t
  else if r.workflowJobID ≠ 0 ∧ t.rows.any (·.workflowJobID = r.workflowJobID) then t
  else t.insert r

def readState (t : Requests) (id : String) : Option RunnerState := t.find (sanitizeID id)

/-- The compare-and-swap on the version; `none` is a conflict. -/
def writeState (t : Requests) (st : RunnerState) (now : Time) : Option Requests :=
  if sanitizeID st.id = "" then none else
  match t.find (sanitizeID st.id) with
  | none => none
  | some current =>
    if current.version = st.version then some (t.put (st.written current now)) else none

def claimable (r : RunnerState) (now : Time) : Bool :=
  r.status = .queued && r.nextRetryAt ≤ now && r.leaseExpiresAt ≤ now

/-- The order of claims: a deferred request joins at its next eligible time. -/
def claimBefore (r r' : RunnerState) : Bool :=
  let due (r : RunnerState) := if r.nextRetryAt = 0 then r.createdAt else r.nextRetryAt
  due r < due r' || (due r = due r' &&
    (r.createdAt < r'.createdAt || (r.createdAt = r'.createdAt && r.id < r'.id)))

def claimCandidate (t : Requests) (now : Time) : Option RunnerState :=
  (t.rows.filter (claimable · now)).foldl
    (fun best r =>
      match best with
      | none => some r
      | some b => if claimBefore r b then some r else some b)
    none

/-- The update of a claim; `none` is a conflict. The version is not compared. -/
def claimUpdate (t : Requests) (candidate : RunnerState) (workerID : String)
    (now leaseTTL : Time) : Option Requests :=
  match t.find candidate.id with
  | none => none
  | some r =>
    if r.status = .queued ∧ r.leaseExpiresAt ≤ now then
      some (t.put (r.claimed candidate.version workerID now leaseTTL))
    else none

/-- The lease of the given worker is cleared at the version it has. -/
def releaseLease (t : Requests) (id workerID : String) : Requests :=
  match t.find (sanitizeID id) with
  | none => t
  | some r => if r.leaseOwner = Text.trimSpace workerID then t.put r.clearLease else t

/-- The update of a retry. A conflict goes unnoticed. -/
def retryUpdate (t : Requests) (record : RunnerState) (now : Time) : Requests :=
  match t.find record.id with
  | none => t
  | some r => if r.version = record.version then t.put (r.retried record.version now) else t

def inFlightCount (t : Requests) : Nat := t.count fun r => r.status.inFlight

/-- Rows in descending order of a time; those of the same time stand as the store has them. -/
def latestFirst (time : RunnerState → Time) (ties : String → Nat) (r : RunnerState) :
    Timeᵒᵈ ×ₗ Nat := toLex (OrderDual.toDual (time r), ties r.id)

def listActiveStates (t : Requests) (ties : String → Nat) : List RunnerState :=
  ordered (latestFirst RunnerState.createdAt ties) t.rows fun r =>
    r.status = .queued || r.status.inFlight

def listMismatchedCompletedStates (t : Requests) (ties : String → Nat) (limit : Nat) :
    List RunnerState :=
  let records := ordered (latestFirst RunnerState.updatedAt ties) t.rows fun r =>
    r.status = .completed && r.workflowJobID ≠ 0 && r.assignedJobID ≠ 0 &&
      r.assignedJobID ≠ r.workflowJobID
  records.take limit

/-- The failures that a completed job makes up for. -/
def failedWorkflowJob (r : RunnerState) : Bool :=
  r.status = .failed && r.workflowJobID ≠ 0 &&
    (r.failureStage = some .recovery || r.failureStage = some .cleanup)

def listFailedWorkflowJobStates (t : Requests) (ties : String → Nat) (limit : Nat) :
    List RunnerState :=
  (ordered (latestFirst RunnerState.updatedAt ties) t.rows failedWorkflowJob).take limit

variable {t t' : Requests} {st r : RunnerState} {id : String} {now : Time}

/-! ### What each statement does -/

theorem writeState_eq_some (h : t.writeState st now = some t') :
    ∃ current, t.find (sanitizeID st.id) = some current ∧ current.version = st.version ∧
      t' = t.put (st.written current now) := by
  unfold writeState at h
  split at h
  · cases h
  · split at h
    · cases h
    · rename_i current hc
      split at h
      · exact ⟨current, hc, ‹_›, (Option.some.inj h).symm⟩
      · cases h

theorem claimUpdate_eq_some {candidate : RunnerState} {workerID : String} {leaseTTL : Time}
    (h : t.claimUpdate candidate workerID now leaseTTL = some t') :
    ∃ r, t.find candidate.id = some r ∧ r.status = .queued ∧ r.leaseExpiresAt ≤ now ∧
      t' = t.put (r.claimed candidate.version workerID now leaseTTL) := by
  unfold claimUpdate at h
  split at h
  · cases h
  · rename_i r hr
    split at h
    · rename_i hq
      exact ⟨r, hr, hq.1, hq.2, (Option.some.inj h).symm⟩
    · cases h

theorem releaseLease_cases (t : Requests) (id workerID : String) :
    t.releaseLease id workerID = t ∨
    ∃ r, t.find (sanitizeID id) = some r ∧ r.leaseOwner = Text.trimSpace workerID ∧
      t.releaseLease id workerID = t.put r.clearLease := by
  unfold releaseLease
  rcases hf : t.find (sanitizeID id) with _ | r
  · exact .inl rfl
  · by_cases hw : r.leaseOwner = Text.trimSpace workerID
    · exact .inr ⟨r, rfl, hw, by simp [hw]⟩
    · exact .inl (by simp [hw])

theorem retryUpdate_cases (t : Requests) (record : RunnerState) (now : Time) :
    t.retryUpdate record now = t ∨
    ∃ r, t.find record.id = some r ∧ r.version = record.version ∧
      t.retryUpdate record now = t.put (r.retried record.version now) := by
  unfold retryUpdate
  rcases hf : t.find record.id with _ | r
  · exact .inl rfl
  · by_cases hv : r.version = record.version
    · exact .inr ⟨r, rfl, hv, by simp [hv]⟩
    · exact .inl (by simp [hv])

theorem createRequest_cases (t : Requests) (r : RunnerState) :
    t.createRequest r = t ∨ t.createRequest r = t.insert r := by
  unfold createRequest
  split
  · exact .inl rfl
  · split
    · exact .inl rfl
    · exact .inr rfl

theorem find_createRequest_of_find (h : t.find id = some r) (row : RunnerState) :
    (t.createRequest row).find id = some r := by
  rcases t.createRequest_cases row with he | he
  · rw [he, h]
  · rw [he, Table.find_insert_of_find h]

end Requests

end CiRunner.State
