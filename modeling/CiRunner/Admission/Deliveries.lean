import CiRunner.Lifecycle.Failures
import CiRunner.State.Contention
import CiRunner.Threads.Outline

/-! Requests as they come in: queued jobs that webhooks deliver, as often as they like, and
requests that an administrator creates under an id of their choice. A delivery looks for a
request under the id of its job, and inserts one if there is none; an insertion does
nothing where the id or the job has a request. Workers claim requests meanwhile, and
whoever else has a request writes it back. -/

namespace CiRunner.Admission

open Threads Tables CiRunner.State
open CiRunner.State.Contention (Edit)

/-! ### Statements -/

inductive Failure where
  | emptyID | notFound | conflict | database
  deriving DecidableEq, Repr

def Failure.text : Failure → String
  | .emptyID => "request id is empty"
  | .notFound => "state record not found"
  | .conflict => "state conflict"
  | .database => "database error"

inductive Call where
  | now
  /-- The state under the id of a request that comes in. -/
  | lookup (req : NewRequest)
  | insert (row : RunnerState)
  | findJob (jobID : Nat)
  /-- A delivery writes the state that it has read. -/
  | wake (st : RunnerState)
  | respond (req : NewRequest) (result : Except Failure (RunnerState × Bool))
  | readState (id : String)
  | writeState (st : RunnerState)
  | claimCandidate (now : Time)
  | claimUpdate (candidate : RunnerState) (workerID : String) (now leaseTTL : Time)
  | releaseLease (id workerID : String)
  | retryUpdate (record : RunnerState) (now : Time)

/-- The job for which a request that comes in makes a call. -/
def Call.job : Call → Option Nat
  | .lookup req | .respond req _ => some req.jobID
  | .insert row => some row.workflowJobID
  | .findJob jobID => some jobID
  | .wake st => some st.workflowJobID
  | _ => none

abbrev Reply : Call → Type
  | .now => Time
  | .lookup _ | .findJob _ => Except Failure RunnerState
  | .insert _ => Except Failure Bool
  | .wake _ => Except Failure Unit
  | .readState _ | .claimCandidate _ => Option RunnerState
  | .writeState _ | .claimUpdate _ _ _ _ => Bool
  | _ => Unit

/-- The time, and whether the database fails the statement. -/
structure Choice where
  now : Time := 0
  fails : Bool := false

/-- The reply to a query for one row. -/
def found (x : Choice) : Option RunnerState → Except Failure RunnerState
  | none => .error (if x.fails then .database else .notFound)
  | some r => if x.fails then .error .database else .ok r

/-- A row can be inserted: there is none under its id or for its job. -/
def insertable (t : Requests) (r : RunnerState) : Bool :=
  r.id ≠ "" && (t.find r.id).isNone &&
    !(r.workflowJobID ≠ 0 && t.rows.any (·.workflowJobID = r.workflowJobID))

def serve (_ : Nat) : (c : Call) → Choice → Requests → Option (Reply c × Requests)
  | .now, x, t => some (x.now, t)
  | .lookup req, x, t => some (found x (t.readState req.id), t)
  | .insert row, x, t =>
    some (if x.fails then (.error .database, t)
      else (.ok (insertable t row), t.createRequest row))
  | .findJob jobID, x, t => some (found x (t.rows.find? (·.workflowJobID = jobID)), t)
  | .wake st, x, t =>
    some (if x.fails then (.error .database, t)
      else match t.writeState st x.now with
        | none => (.error .conflict, t)
        | some t' => (.ok (), t'))
  | .respond _ _, _, t => some ((), t)
  | .readState id, x, t => some (if x.fails then none else t.readState id, t)
  | .writeState st, x, t =>
    some (if x.fails then (false, t)
      else match t.writeState st x.now with
        | none => (false, t)
        | some t' => (true, t'))
  | .claimCandidate now, x, t => some (if x.fails then none else t.claimCandidate now, t)
  | .claimUpdate candidate workerID now leaseTTL, x, t =>
    some (if x.fails then (false, t)
      else match t.claimUpdate candidate workerID now leaseTTL with
        | none => (false, t)
        | some t' => (true, t'))
  | .releaseLease id workerID, x, t =>
    some ((), if x.fails then t else t.releaseLease id workerID)
  | .retryUpdate record now, x, t => some ((), if x.fails then t else t.retryUpdate record now)

abbrev P := Prog Reply

def ask (c : Call) : P (Reply c) := Prog.ask c

/-! ### Requests that come in -/

def createRequest (req : NewRequest) (row : Time → RunnerState) :
    P (Except Failure (Bool × RunnerState)) := do
  if sanitizeID req.id = "" then pure (.error .emptyID) else
  let now : Time ← ask .now
  match ← ask (.insert (row now)) with
  | .error e => pure (.error e)
  | .ok true => pure (.ok (true, row now))
  | .ok false =>
    match ← ask (.lookup req) with
    | .ok st => pure (.ok (false, st))
    | .error .notFound =>
      if req.jobID = 0 then pure (.error .notFound) else
      match ← ask (.findJob req.jobID) with
      | .ok _ => pure (.error .conflict)
      | .error e => pure (.error e)
    | .error e => pure (.error e)

/-- The request waits for its job, and nobody works on it. -/
def waiting (st : RunnerState) : Bool :=
  st.status = .queued && st.lastErrorCode = Lifecycle.workflowJobWaitCode && st.leaseOwner = "" &&
    st.sandboxID = "" && st.processPID = 0

/-- A delivery for the job of a request that waits can shorten the wait. -/
def wakes (req : NewRequest) (st : RunnerState) : Bool :=
  waiting st && st.workflowJobID = req.jobID && st.repositoryFullName = req.repositoryFullName &&
    st.gitHubInstallationID = req.gitHubInstallationID && st.nextRetryAt ≠ 0

def wakeWaitingWorkflowJob (req : NewRequest) (fallback : RunnerState) :
    P (Except Failure RunnerState) := do
  if req.jobID = 0 then pure (.ok fallback) else
  match ← ask (.lookup req) with
  | .error e => pure (.error e)
  | .ok st =>
    if wakes req st then
      match ← ask (.wake { st with nextRetryAt := 0 }) with
      | .ok _ => pure (.ok { st with nextRetryAt := 0 })
      | .error .conflict => ask (.lookup req)
      | .error e => pure (.error e)
    else pure (.ok st)

def enqueueRunnerRequestLocked (req : NewRequest) : P (Except Failure (RunnerState × Bool)) := do
  match ← ask (.lookup req) with
  | .ok fallback =>
    match ← wakeWaitingWorkflowJob req fallback with
    | .ok st => pure (.ok (st, false))
    | .error e => pure (.error e)
  | .error _ =>
    match ← createRequest req req.row with
    | .ok (created, st) => pure (.ok (st, created))
    | .error e => pure (.error e)

def rejectAdmission (req : NewRequest) (reason : String) :
    P (Except Failure (RunnerState × Bool)) := do
  match ← createRequest req (req.rejectedRow reason) with
  | .ok (_, st) => pure (.ok (st, false))
  | .error e => pure (.error e)

/-- What admission makes of a job. -/
inductive Verdict where
  | matched (labels : List String) (runnerGroup : String)
  | rejected (reason : String)
  | failed

/-- A queued job, from a webhook for it or for its run. -/
structure Delivery where
  jobID : Nat
  repositoryFullName : String := ""
  gitHubInstallationID : Int := 0
  labels : List String := []
  verdict : Verdict

namespace Delivery

def request (d : Delivery) : NewRequest where
  id := toString d.jobID
  gitHubInstallationID := d.gitHubInstallationID
  repositoryFullName := d.repositoryFullName
  labels := match d.verdict with
    | .matched labels _ => labels
    | _ => d.labels
  runnerGroup := match d.verdict with
    | .matched _ runnerGroup => runnerGroup
    | _ => ""
  runnerName := "e2b-" ++ toString d.jobID
  jobID := d.jobID

end Delivery

def enqueueWorkflowJob (d : Delivery) : P (Except Failure (RunnerState × Bool)) :=
  match d.verdict with
  | .matched _ _ => enqueueRunnerRequestLocked d.request
  | .rejected reason => rejectAdmission d.request reason
  | .failed => pure (.error .database)

structure Manual where
  id : String
  repositoryFullName : String := ""
  labels : List String := []
  runnerGroup : String := ""

def Manual.request (m : Manual) : NewRequest where
  id := m.id
  repositoryFullName := m.repositoryFullName
  labels := m.labels
  runnerGroup := m.runnerGroup
  runnerName := "e2b-" ++ m.id

/-! ### Others -/

/-- A worker is known by its host and process. -/
abbrev Worker := { w : String // Text.trimSpace w ≠ "" }

def writes : List Edit → RunnerState → P Unit
  | [], _ => pure ()
  | edit :: edits, st => do
    let written ← ask (.writeState (edit.apply st))
    if written then writes edits { edit.apply st with version := (edit.apply st).version + 1 }
    else pure ()

/-- Whoever reads a state and writes it back. -/
def updateState (id : String) (edits : List Edit) : P Unit := do
  match ← ask (.readState id) with
  | none => pure ()
  | some st => writes edits st

def claimNextRunnable (worker : Worker) (now leaseTTL : Time) : P Unit := do
  match ← ask (.claimCandidate now) with
  | none => pure ()
  | some candidate =>
    let _ ← ask (.claimUpdate candidate (Text.trimSpace worker.1) now leaseTTL)
    pure ()

def retryRequest (id : String) (now : Time) : P Unit := do
  match ← ask (.readState id) with
  | none => pure ()
  | some record => if record.retryAllowed then ask (.retryUpdate record now) else pure ()

/-! ### The machine -/

inductive Op where
  | deliver (d : Delivery)
  | create (m : Manual)
  | updateState (id : String) (edits : List Edit)
  | claimNextRunnable (worker : Worker) (now leaseTTL : Time)
  | releaseLease (id : String) (worker : Worker)
  | retryRequest (id : String) (now : Time)

def answer (req : NewRequest) (p : P (Except Failure (RunnerState × Bool))) : P Unit := do
  let result ← p
  ask (.respond req result)

def program : Op → P Unit
  | .deliver d => answer d.request (enqueueWorkflowJob d)
  | .create m => answer m.request (enqueueRunnerRequestLocked m.request)
  | .updateState id edits => updateState id edits
  | .claimNextRunnable worker now leaseTTL => claimNextRunnable worker now leaseTTL
  | .releaseLease id worker => ask (.releaseLease id worker.1)
  | .retryRequest id now => retryRequest id now

def machine : Machine Reply Requests Choice Op where
  serve := serve
  prog := program
  enabled _ _ := true
  restart t := t

end CiRunner.Admission
