import CiRunner.Threads.Machine
import CiRunner.State.Requests
import CiRunner.Lifecycle.Edits

/-! The shared state of the runner lifecycle and the atomic calls on it: statements
of the store, locks, the capacity controller, and requests to GitHub and to the
sandbox provider. Beside what the process and the store hold, the state records
what the properties speak of: which sandboxes a stop is known to have removed, how
many attempts a request has had, and which attempt its sandbox and its service come
from. -/

namespace CiRunner.Lifecycle

open Threads CiRunner.State

/-- The places of the lifecycle that write a request, with the attempt that they write for: the
number of creating writes of the request up to then. -/
inductive Writer where
  | creating
  | running (attempt : Nat)
  | skipped (attempt : Nat)
  | failStart (attempt : Nat)
  | snapshot (attempt : Nat)
  | jobCheckCleared (attempt : Nat)
  | jobCheckDeferred (attempt : Nat)
  | deferQueued (attempt : Nat)
  | deferCreating (attempt : Nat)
  | jitRetained (attempt : Nat)
  | jobStarted (attempt : Option Nat)
  | jobInProgress
  | exitBusy | exitStopping | exitCleanupRetry | exitFinal
  | lateExit | exitJobResult
  | recoverLease
  /-- The runner found again after a restart: in the sandbox of the row, or in one of the given
  attempt where the row has none. -/
  | reconnect (attempt : Option Nat)
  | requeueInterrupted | jitInterrupted
  | stopConflictResult | stopCompletedResult | stopping | stopRetry | stopFailed
  | stopCleanupRetry | stopCleanupFailed
  | mismatchKept | mismatchRequeued | mismatchCompleted
  | jitFailed | jitRequeued | stopFinal
  | forceStopping | forceStopFailed | forceCleanupRetry | forceFailed
  | retryOrFail
  | wake | historical | completeObserved
  deriving DecidableEq, Repr

def Writer.attempt : Writer → Option Nat
  | .running n | .skipped n | .failStart n | .snapshot n | .jobCheckCleared n
  | .jobCheckDeferred n | .deferQueued n | .deferCreating n | .jitRetained n => some n
  | .jobStarted n => n
  | _ => none

structure State where
  rows : Requests
  /-- The holders of the request locks and of the locks that serialise creation on Windows. -/
  locks : String → Option Nat
  creationLocks : String → Option Nat
  /-- The threads with a capacity reservation whose creating write is still to come. -/
  reservations : List Nat
  /-- The attempts under way, from where a start has found the request queued: the request and the
  thread. -/
  starts : List (String × Nat)
  /-- The runners whose output is read, with their attempt. -/
  outputs : List (String × Nat)
  /-- The runners whose exit is watched. -/
  watched : List (String × RunnerAttemptIdentity)
  /-- The sandboxes that a stop has removed or has found gone. -/
  stopped : List String
  /-- The number of creating writes of each request and the time of the last one. -/
  attempts : String → Nat
  attemptAt : String → Time
  /-- The attempts that the sandbox and the service snapshot of each request come from. -/
  sandboxFrom : String → Nat
  serviceFrom : String → Nat

/-- The state of a process that has just started on the given requests. -/
def State.initial (rows : Requests) : State where
  rows := rows
  locks _ := none
  creationLocks _ := none
  reservations := []
  starts := []
  outputs := []
  watched := []
  stopped := []
  attempts _ := 0
  attemptAt _ := 0
  sandboxFrom _ := 0
  serviceFrom _ := 0

/-- The process dies: what it held in memory is gone. -/
def State.restart (s : State) : State :=
  { s with
    locks := fun _ => none
    creationLocks := fun _ => none
    reservations := []
    starts := []
    outputs := []
    watched := [] }

/-- Requests and checks beyond the lifecycle that only succeed or fail. -/
inductive Remote where
  | validateRunnerGroup | listRunnerApplications | createRegistrationToken | runnerURL
  | removeRunner | resolveSandboxService
  /-- The log of the request ends with a skip for a waiting job, and its source is a webhook. -/
  | skippedWhileWaiting
  deriving DecidableEq, Repr

/-- The answer of the capacity controller. -/
inductive Reservation where
  | granted
  | refused (stage : Capacity.CapacityStage)
  | failed

inductive ProfileError where
  | lookup (err : Err)
  | validation (err : Err)

/-- Whether the sponsorship that a service snapshot rests on still allows it. -/
inductive SponsorCheck where
  | allowed | deferred
  | failed (err : Err)

/-- The registration of a Windows runner. -/
structure JITResult where
  err : Option Err := none
  cleanupRequired : Bool := false
  runnerKnown : Bool := false

/-- The outcome of looking for the runner of a request after a restart. -/
inductive Recovered where
  | found (result : StartResult) (attempt : Nat)
  | sandboxNotFound
  | runnerNotFound (sandboxID : String)
  | failed

inductive Call where
  | lock (id : String)
  | unlock (id : String)
  | lockCreation (id : String)
  /-- The end of an attempt on Windows. -/
  | unlockCreation (id : String)
  | now
  | readState (id : String)
  | listActiveStates
  | listMismatchedCompletedStates
  | listFailedWorkflowJobStates
  | writeState (w : Writer) (st : RunnerState)
  | claimCandidate (now : Time)
  | claimUpdate (candidate : RunnerState) (workerID : String) (now leaseTTL : Time)
  /-- The release of a lease, by a start of the given attempt. -/
  | releaseLease (attempt : Nat) (id workerID : String)
  | retryUpdate (record : RunnerState) (now : Time)
  | createRequest (row : RunnerState)
  /-- A start has found the request queued; the reply is the number of attempts so far. -/
  | startBegin (id : String)
  /-- The end of an attempt elsewhere. -/
  | startDone (id : String)
  | checkProfile
  | reserve
  | remote (request : Remote)
  | sandboxConfig (id : String)
  | checkSponsorship (config : ServiceSnapshot)
  | resolveTemplate
  | createJITConfig
  | startSandbox (id : String) (attempt : Nat)
  | recoverSandbox (sandboxID : String)
  | stopSandbox (sandboxID : String)
  | watchExit (id : String) (identity : RunnerAttemptIdentity)
  | getWorkflowJob (repository : String) (jobID : Nat)
  | runnerBusy

abbrev Reply : Call → Type
  | .now => Time
  | .readState _ => Option RunnerState
  | .listActiveStates => List RunnerState
  | .listMismatchedCompletedStates => List RunnerState
  | .listFailedWorkflowJobStates => List RunnerState
  | .writeState _ _ => Option RunnerState
  | .claimCandidate _ => Option RunnerState
  | .claimUpdate _ _ _ _ => Bool
  | .startBegin _ => Nat
  | .checkProfile => Option ProfileError
  | .reserve => Reservation
  | .remote _ => Option Err
  | .sandboxConfig _ => Except Err ServiceSnapshot
  | .checkSponsorship _ => SponsorCheck
  | .resolveTemplate => Except Err String
  | .createJITConfig => JITResult
  | .startSandbox _ _ => Except Err StartResult
  | .recoverSandbox _ => Recovered
  | .stopSandbox _ => Option Err
  | .getWorkflowJob _ _ => Except Err WorkflowJob
  | .runnerBusy => Except Err Bool
  | _ => Unit

/-- What the surroundings choose: the clock, whether the store fails a statement, and what remote
requests come back with. -/
structure Choice where
  ticks : Nat := 0
  fails : Bool := false
  flag : Bool := false
  err : Option Err := none
  job : WorkflowJob := {}
  stage : Capacity.CapacityStage := .global
  config : ServiceSnapshot := {}
  result : Option StartResult := none
  attempt : Nat := 0
  text : String := ""
  /-- The order in which the store lists rows of the same time. -/
  ties : String → Nat := fun _ => 0

/-- The clock never shows the zero time. -/
def Choice.now (x : Choice) : Time := x.ticks + 1

/-! ### Calls on the store -/

/-- A creating write uses up the reservation of its thread, whether it commits or not. -/
def State.settle (s : State) (i : Nat) (w : Writer) : State :=
  if w = .creating then { s with reservations := s.reservations.erase i } else s

def State.record (s : State) (w : Writer) (key : String) (now : Time) : State :=
  match w with
  | .creating =>
    { s with
      attempts := Function.update s.attempts key (s.attempts key + 1)
      attemptAt := Function.update s.attemptAt key now }
  | .running n => { s with sandboxFrom := Function.update s.sandboxFrom key n }
  | .reconnect (some n) => { s with sandboxFrom := Function.update s.sandboxFrom key n }
  | .snapshot n => { s with serviceFrom := Function.update s.serviceFrom key n }
  | _ => s

/-- The reply to a write is the row it has left, unless there is a conflict. -/
def State.writeState (s : State) (i : Nat) (w : Writer) (st : RunnerState) (now : Time) :
    Option RunnerState × State :=
  match s.rows.writeState st now with
  | none => (none, s.settle i w)
  | some rows =>
    (rows.find (sanitizeID st.id),
      { (s.settle i w).record w (sanitizeID st.id) now with rows := rows })

def State.claimUpdate (s : State) (candidate : RunnerState) (workerID : String)
    (now leaseTTL : Time) : Bool × State :=
  match s.rows.claimUpdate candidate workerID now leaseTTL with
  | none => (false, s)
  | some rows => (true, { s with rows := rows })

/-! ### Calls on the process and beyond -/

/-- The contract of the capacity controller: it may refuse, and it grants a reservation only where
there is room beside the requests in flight and the reservations before it. -/
def State.reserve (cfg : Settings) (s : State) (i : Nat) (x : Choice) : Reservation × State :=
  if x.fails then (.failed, s)
  else if x.flag ∨ cfg.maxConcurrentRunners ≤ s.rows.inFlightCount + s.reservations.length then
    (.refused x.stage, s)
  else (.granted, { s with reservations := i :: s.reservations })

/-- A sandbox that a stop has removed or has found gone is recorded. -/
def State.stopSandbox (s : State) (sandboxID : String) (err : Option Err) : Option Err × State :=
  match err with
  | none => (none, { s with stopped := sandboxID :: s.stopped })
  | some e => (some e, if isSandboxGone e then { s with stopped := sandboxID :: s.stopped } else s)

/-- The sandbox that is looked for is the given one, or the one found for the request. -/
def recovered (sandboxID : String) (x : Choice) : Recovered :=
  match x.result with
  | some r =>
    if Text.trimSpace sandboxID = "" then .found r x.attempt
    else .found { r with
      sandboxID := Text.trimSpace sandboxID
      trimmed := Text.trimSpace_trimSpace sandboxID } x.attempt
  | none =>
    if x.fails then .failed
    else if x.flag then .sandboxNotFound
    else .runnerNotFound
      (if Text.trimSpace sandboxID = "" then x.text else Text.trimSpace sandboxID)

/-- Only the thread that has taken a lock has the function that releases it. -/
def released (locks : String → Option Nat) (id : String) (i : Nat) : String → Option Nat :=
  if locks id = some i then Function.update locks id none else locks

def serve (cfg : Settings) (i : Nat) : (c : Call) → Choice → State → Option (Reply c × State)
  | .lock id, _, s =>
    if s.locks id = none then
      some ((), { s with locks := Function.update s.locks id (some i) }) else none
  | .unlock id, _, s => some ((), { s with locks := released s.locks id i })
  | .lockCreation id, _, s =>
    if s.creationLocks id = none then
      some ((), { s with creationLocks := Function.update s.creationLocks id (some i) }) else none
  | .unlockCreation id, _, s =>
    some ((), { s with
      creationLocks := released s.creationLocks id i
      starts := s.starts.filter (· ≠ (id, i)) })
  | .now, x, s => some (x.now, s)
  | .readState id, x, s => some (if x.fails then none else s.rows.find (sanitizeID id), s)
  | .listActiveStates, x, s => some (if x.fails then [] else s.rows.listActiveStates x.ties, s)
  | .listMismatchedCompletedStates, x, s =>
    some (if x.fails then [] else s.rows.listMismatchedCompletedStates x.ties 50, s)
  | .listFailedWorkflowJobStates, x, s =>
    some (if x.fails then [] else s.rows.listFailedWorkflowJobStates x.ties 50, s)
  | .writeState w st, x, s =>
    some (if x.fails then (none, s.settle i w) else s.writeState i w st x.now)
  | .claimCandidate now, x, s => some (if x.fails then none else s.rows.claimCandidate now, s)
  | .claimUpdate candidate workerID now leaseTTL, x, s =>
    some (if x.fails then (false, s) else s.claimUpdate candidate workerID now leaseTTL)
  | .releaseLease _ id workerID, x, s =>
    some ((), if x.fails then s else { s with rows := s.rows.releaseLease id workerID })
  | .retryUpdate record now, x, s =>
    some ((), if x.fails then s else { s with rows := s.rows.retryUpdate record now })
  | .createRequest row, x, s =>
    some ((), if x.fails then s else { s with rows := s.rows.createRequest row })
  | .startBegin id, _, s =>
    some (s.attempts (sanitizeID id), { s with starts := (sanitizeID id, i) :: s.starts })
  | .startDone id, _, s =>
    some ((), { s with starts := s.starts.filter (· ≠ (sanitizeID id, i)) })
  | .checkProfile, x, s =>
    some (x.err.map fun e => if x.flag then .lookup e else .validation e, s)
  | .reserve, x, s => some (s.reserve cfg i x)
  | .remote _, x, s => some (x.err, s)
  | .sandboxConfig _, x, s =>
    some (match x.err with | some e => .error e | none => .ok x.config, s)
  | .checkSponsorship _, x, s =>
    some (match x.err with
      | some e => .failed e
      | none => if x.flag then .deferred else .allowed, s)
  | .resolveTemplate, x, s =>
    some (match x.err with | some e => .error e | none => .ok x.text, s)
  | .createJITConfig, x, s => some (⟨x.err, x.flag, x.fails⟩, s)
  | .startSandbox id n, x, s =>
    some (match x.err, x.result with
      | none, some r => .ok r
      | some e, _ => .error e
      | none, none => .error (.message "start runner"), { s with outputs := (id, n) :: s.outputs })
  | .recoverSandbox sandboxID, x, s => some (recovered sandboxID x, s)
  | .stopSandbox sandboxID, x, s => some (s.stopSandbox sandboxID x.err)
  | .watchExit id identity, _, s => some ((), { s with watched := (id, identity) :: s.watched })
  | .getWorkflowJob _ _, x, s =>
    some (match x.err with | some e => .error e | none => .ok x.job, s)
  | .runnerBusy, x, s => some (match x.err with | some e => .error e | none => .ok x.flag, s)

abbrev ask (c : Call) : Prog Reply (Reply c) := Prog.ask c

end CiRunner.Lifecycle
