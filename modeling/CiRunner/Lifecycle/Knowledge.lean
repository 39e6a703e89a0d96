import CiRunner.Threads.Outline
import CiRunner.Tables.Versioned
import CiRunner.Lifecycle.Accounts
import CiRunner.Lifecycle.Loops

/-! The proof outline of the lifecycle: what a thread knows of the rows it has
read, of the locks it holds, of the sandboxes it has stopped and of the attempt it
is on, what it must know for each call, and what a call can do to a row. The
outline is written once; the properties of the lifecycle read its knowledge in
different ways. -/

namespace CiRunner.Lifecycle

open Threads Tables CiRunner.State Text

/-! ### Knowledge and obligations -/

structure Know where
  /-- The rows read and written. -/
  rows : List RunnerState := []
  /-- The sandboxes stopped. -/
  stopped : List String := []
  /-- The locks held. -/
  locks : List String := []
  creation : List String := []
  /-- The locked requests that were seen without a sandbox. -/
  unprovisioned : List String := []
  /-- The request that is being started and the number of its attempt. -/
  attempt : Option (String × Nat) := none
  /-- The service of the request is that of the attempt. -/
  served : Bool := false
  /-- Capacity is reserved for the attempt. -/
  reserved : Bool := false
  /-- The creating write of the attempt is made, and nothing has ended the attempt since. -/
  undecided : Bool := false

/-- What a writer must know beside the row `b` that it is based on. -/
def Permit (κ : Know) (b : RunnerState) : Writer → Prop
  | .creating => κ.reserved = true ∧ (∃ n, κ.attempt = some (b.id, n)) ∧
    (isWindows b.labels = true → b.id ∈ κ.creation)
  | .running n => κ.attempt = some (b.id, n) ∧ κ.served = true ∧ b.id ∈ κ.locks
  | .reconnect _ => b.id ∈ κ.locks
  | .skipped n | .failStart n | .snapshot n | .jobCheckCleared n | .jobCheckDeferred n
  | .deferQueued n | .deferCreating n | .jitRetained n => κ.attempt = some (b.id, n)
  | _ => True

/-- What a writer knows of the attempt that it ends, and of the rows it has come from. -/
def Backed (κ : Know) (b st : RunnerState) : Writer → Prop
  | .failStart _ => κ.undecided = true ∨ failsEarly st = true
  | .jobCheckDeferred _ | .deferCreating _ => κ.undecided = true
  | .exitFinal => ∃ e ∈ κ.rows, e.id = b.id ∧ live e.status = true ∧ b.failedAt = e.failedAt
  | .jitRequeued => ∃ e ∈ κ.rows, e.id = b.id ∧ e.workflowJobID ≠ 0
  | _ => True

structure NewRow (r : RunnerState) : Prop where
  ok : RowOk r
  status : core r = {} ∨ r.status = .failed ∧ r.sandboxID = ""

/-- A state is written at the version of a row that is known, and does to it what its writer is
said to do. -/
def may (cfg : Settings) (κ : Know) : Call → Prop
  | .writeState w st => ∃ b ∈ κ.rows, b.id = sanitizeID st.id ∧ st.version = b.version ∧
    Site κ.stopped (core b) (core st) w ∧ Permit κ b w ∧
    Accounts cfg.retryMaxAttempts b st w ∧ Backed κ b st w
  | .releaseLease n id _ => κ.attempt = some (sanitizeID id, n)
  | .retryUpdate record _ => record ∈ κ.rows ∧ record.retryAllowed = true
  | .createRequest row => NewRow row
  | .startBegin id => ∃ b ∈ κ.rows, b.id = sanitizeID id ∧
    (isWindows b.labels = true → b.id ∈ κ.creation)
  | .sandboxConfig id => ∃ n, κ.attempt = some (sanitizeID id, n)
  | _ => True

/-- What a row that is read has in common with those known before. -/
structure Learned (κ : Know) (key : String) (r : RunnerState) : Prop where
  id_eq : r.id = key
  ok : RowOk r
  unprovisioned : key ∈ κ.unprovisioned → r.sandboxID = ""
  labels : ∀ b ∈ κ.rows, b.id = key → b.labels = r.labels
  core_eq : ∀ b ∈ κ.rows, b.id = key → b.version = r.version → core b = core r

def tells (κ : Know) : (c : Call) → Reply c → Prop
  | .readState id, reply => ∀ r : RunnerState, reply = some r → Learned κ (sanitizeID id) r
  | .writeState _ st, reply => ∀ r : RunnerState, reply = some r →
    ∃ current now, current.id = sanitizeID st.id ∧ r = st.written current now
  | .recoverSandbox sandboxID, reply => ∀ result n, reply = Recovered.found result n →
    trimSpace sandboxID ≠ "" → result.sandboxID = trimSpace sandboxID
  | _, _ => True

/-- No service of its own is configured for the request. -/
def unconfigured (config : ServiceSnapshot) : Bool :=
  config.apiURL = "" ∧ config.apiKeyEncrypted = ""

namespace Know

def locked (κ : Know) (id : String) : Know := { κ with locks := id :: κ.locks }

def unlocked (κ : Know) (id : String) : Know :=
  { κ with
    locks := κ.locks.filter (· ≠ id)
    unprovisioned := κ.unprovisioned.filter (· ≠ id) }

def read (κ : Know) (r : RunnerState) : Know :=
  { κ with
    rows := r :: κ.rows
    unprovisioned :=
      if r.sandboxID = "" ∧ r.id ∈ κ.locks then r.id :: κ.unprovisioned else κ.unprovisioned }

/-- A creating write uses up the reservation. -/
def spent (κ : Know) (w : Writer) : Know :=
  { κ with
    unprovisioned := []
    reserved := match w with
      | .creating => false
      | _ => κ.reserved }

/-- A creating write that is accepted begins the next attempt. -/
def nextAttempt (κ : Know) : Writer → Option (String × Nat)
  | .creating => κ.attempt.map fun p => (p.1, p.2 + 1)
  | _ => κ.attempt

def nextServed (κ : Know) : Writer → Bool
  | .creating => false
  | .snapshot _ => true
  | _ => κ.served

def nextUndecided (κ : Know) (w : Writer) : Bool :=
  w = .creating || κ.undecided && !w.decides

def wrote (κ : Know) (w : Writer) : Option RunnerState → Know
  | none => κ.spent w
  | some r =>
    { κ.spent w with
      rows := r :: κ.rows
      attempt := κ.nextAttempt w
      served := κ.nextServed w
      undecided := κ.nextUndecided w }

def stoppedSandbox (κ : Know) (sandboxID : String) : Know :=
  { κ with stopped := sandboxID :: κ.stopped }

end Know

def learn (κ : Know) : (c : Call) → Reply c → Know
  | .lock id, _ => κ.locked id
  | .unlock id, _ => κ.unlocked id
  | .lockCreation id, _ => { κ with creation := id :: κ.creation }
  | .unlockCreation id, _ =>
    { κ with creation := κ.creation.filter (· ≠ id), attempt := none, undecided := false }
  | .readState _, some r => κ.read r
  | .writeState w _, reply => κ.wrote w reply
  | .startBegin id, n =>
    { κ with attempt := some (sanitizeID id, n), served := false, undecided := false }
  | .startDone _, _ => { κ with attempt := none, undecided := false }
  | .reserve, .granted => { κ with reserved := true }
  | .sandboxConfig _, .ok config => { κ with served := κ.served || unconfigured config }
  | .stopSandbox sandboxID, none => κ.stoppedSandbox sandboxID
  | .stopSandbox sandboxID, some err =>
    if isSandboxGone err then κ.stoppedSandbox sandboxID else κ
  | _, _ => κ

/-! ### Readings of the knowledge -/

variable (cfg : Settings)

/-- The runs considered, what is true in them, and what the knowledge of a thread says there. -/
structure Reading where
  ok : (machine cfg).Condition
  inv : State → Prop
  holds : Nat → Know → State → Prop
  effect : Nat → State → State → Prop

variable {cfg} in
def Reading.outline (R : Reading cfg) : Outline (machine cfg) Know where
  ok := R.ok
  inv := R.inv
  holds := R.holds
  effect := R.effect
  may := may cfg
  tells := tells
  learn := learn

/-- The candidate that a call claims, and the time of the claim. -/
def claims : Call → Option (RunnerState × Time)
  | .claimUpdate candidate _ now _ => some (candidate, now)
  | _ => none

/-- A claim that takes effect finds its candidate at the version it has selected. -/
def NotOvertaken : (machine cfg).Condition := fun _ c x s =>
  ∀ p, claims c = some p → x.fails = false → ∀ r, s.rows.find p.1.id = some r →
    r.status = .queued → r.leaseExpiresAt ≤ p.2 → r.version = p.1.version

/-- The lease may change without a new version. -/
def versioning : Versioning RunnerState where
  version := RunnerState.version
  same r r' := r.clearLease = r'.clearLease
  equivalence := ⟨fun _ => rfl, Eq.symm, Eq.trans⟩
  version_eq {r r'} h :=
    (congrArg RunnerState.version h : r.clearLease.version = r'.clearLease.version)

theorem core_eq_of_same {r r' : RunnerState} (h : versioning.same r r') : core r = core r' :=
  (congrArg core h : core r.clearLease = core r'.clearLease)

structure Holds (i : Nat) (κ : Know) (s : State) : Prop where
  rows : ∀ b ∈ κ.rows, versioning.Seen s.rows.find b.id b
  labels : ∀ b ∈ κ.rows, ∀ r, s.rows.find b.id = some r → r.labels = b.labels
  stopped : ∀ x ∈ κ.stopped, x ∈ s.stopped
  locks : ∀ id ∈ κ.locks, s.locks id = some i
  creation : ∀ id ∈ κ.creation, s.creationLocks id = some i
  unprovisioned : ∀ k ∈ κ.unprovisioned, s.locks k = some i ∧
    ∃ r, s.rows.find k = some r ∧ r.sandboxID = ""
  reserved : κ.reserved = true → i ∈ s.reservations

structure Effect (i : Nat) (s s' : State) : Prop where
  rows : versioning.Advances s.rows.find s'.rows.find
  labels : ∀ k r r', s.rows.find k = some r → s'.rows.find k = some r' → r'.labels = r.labels
  stopped : ∀ x ∈ s.stopped, x ∈ s'.stopped
  locks : ∀ id j, j ≠ i → s.locks id = some j → s'.locks id = some j
  creation : ∀ id j, j ≠ i → s.creationLocks id = some j → s'.creationLocks id = some j
  /-- A request gets its sandbox under its lock. -/
  provisioned : ∀ k r r', s.rows.find k = some r → s'.rows.find k = some r' → r.sandboxID = "" →
    r'.sandboxID = "" ∨ s.locks k = some i
  reservations : ∀ j, j ≠ i → j ∈ s.reservations → j ∈ s'.reservations

/-- Every row is in order. -/
def RowsOk (s : State) : Prop := ∀ k r, s.rows.find k = some r → RowOk r

/-- The reading that all properties share. -/
def baseReading : Reading cfg where
  ok := NotOvertaken cfg
  inv := RowsOk
  holds := Holds
  effect := Effect

/-! ### What a call does -/

/-- What the state records of a request beside its row. -/
structure Trail where
  attempts : Nat
  attemptAt : Time
  sandboxFrom : Nat
  serviceFrom : Nat

def State.trail (s : State) (k : String) : Trail :=
  ⟨s.attempts k, s.attemptAt k, s.sandboxFrom k, s.serviceFrom k⟩

/-- How a call turns the row `cur` into the row that is there after it. -/
inductive Rewrite (κ : Know) (x : Choice) : Call → RunnerState → RunnerState → Prop
  | write {w : Writer} {st b cur : RunnerState} (known : b ∈ κ.rows) (id_eq : b.id = cur.id)
      (same : versioning.same b cur) (key : sanitizeID st.id = cur.id)
      (version : st.version = cur.version) (site : Site κ.stopped (core cur) (core st) w)
      (permit : Permit κ b w) :
      Rewrite κ x (.writeState w st) cur (st.written cur x.now)
  | claim {candidate cur : RunnerState} {workerID : String} {now leaseTTL : Time}
      (status : cur.status = .queued) :
      Rewrite κ x (.claimUpdate candidate workerID now leaseTTL) cur
        (cur.claimed cur.version workerID now leaseTTL)
  | release {n : Nat} {id workerID : String} {cur : RunnerState} (key : sanitizeID id = cur.id)
      (attempt : κ.attempt = some (cur.id, n)) :
      Rewrite κ x (.releaseLease n id workerID) cur cur.clearLease
  | retry {record cur : RunnerState} {now : Time} (known : record ∈ κ.rows)
      (same : versioning.same record cur) (allowed : record.retryAllowed = true) :
      Rewrite κ x (.retryUpdate record now) cur (cur.retried cur.version now)

/-- What is recorded of a call that rewrites the row with the given key. -/
def recorded (s : State) (x : Choice) (key : String) : Call → State
  | .writeState w _ => s.record w key x.now
  | _ => s

/-- Everything a call can do to the rows and to what is recorded of them. -/
inductive Served (κ : Know) (x : Choice) (s : State) : Call → State → Prop
  | rest {c : Call} {s' : State} (rows : s'.rows = s.rows) (trail : s'.trail = s.trail) :
      Served κ x s c s'
  | create {row : RunnerState} (new : NewRow row) :
      Served κ x s (.createRequest row) { s with rows := s.rows.insert row }
  | rewrite {c : Call} {s' : State} {cur new : RunnerState} (found : s.rows.find cur.id = some cur)
      (row : Rewrite κ x c cur new) (rows : s'.rows = s.rows.put new)
      (trail : s'.trail = (recorded s x cur.id c).trail) (accepted : x.fails = false) :
      Served κ x s c s'

end CiRunner.Lifecycle
