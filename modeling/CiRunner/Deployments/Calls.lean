import CiRunner.Threads.Machine
import CiRunner.Deployments.History

/-! The shared state of the deployment workers and handlers, and the atomic calls on
it: transactions of the store, the lock of a scope, and requests to the sandbox
provider. An admission is a transaction of several calls: it takes the lock of its
scope, counts, and releases the lock with its commit. Beside the tables the state
records what the properties speak of: the sandboxes that were created and what is
known to have become of them, and the attempts that were begun. -/

namespace CiRunner.Deployments

open Text Threads Tables
open CiRunner.State (Time)

/-- The places that write a deployment. -/
inductive Site where
  | planning | planFailed | templateFailed | requeue
  | creating
  | created | createFailed | createUnconfirmed
  | applyStage | checkpoint
  | applyExpired | applyFailed | applyCleanupFailed
  | running
  | recovered | recoveryLost | recovery
  | processExit
  | stopRecovered
  /-- The deployment is to be cleaned up; it may have been stopped before its first attempt or
  between two. -/
  | stopping (unstarted : Bool)
  | stopCleanupFailed | stopped
  | stopRequested
  deriving DecidableEq, Repr

/-- A deployment as a handler reads it: to act on it, or again after it has cleaned it up for a
retry that will not look at its sandbox any more. -/
inductive Purpose where
  | act
  | replaceEvidence
  deriving DecidableEq, Repr

/-- The lists that the lanes of the scheduler work on. -/
inductive WorkKind where
  | provision | monitor | cleanup | all
  deriving DecidableEq, Repr

def Deployment.isWork (d : Deployment) (now : Time) : WorkKind → Bool
  | .provision =>
    (d.status == .queued || d.status == .planning || d.status == .creating) && now < d.expiresAt
  | .monitor => d.status == .running && now < d.expiresAt
  | .cleanup =>
    d.status == .stopping || (d.status == .failed && d.sandboxID != "") ||
      ((d.status == .queued || d.status == .planning || d.status == .creating ||
        d.status == .running) && d.expiresAt ≤ now)
  | .all => d.status.active || (d.status == .failed && d.sandboxID != "")

/-- A runtime in a sandbox, whose id it has, and when the provider will remove it; zero if that is
not known. -/
structure Handle where
  sandboxID : String
  expiresAt : Time := 0
  deriving DecidableEq, Repr

/-- The outcome of a creation. A handle may come with the error that the sandbox is not ready. -/
inductive CreateResult where
  | made (handle : Handle) (pending : Bool)
  | pending
  | failed
  deriving DecidableEq, Repr

/-- The outcome of looking for the sandbox of an attempt. -/
inductive Reconciled where
  | found (handle : Handle)
  | none
  | failed
  deriving DecidableEq, Repr

inductive Connected where
  | found (handle : Handle)
  | missing
  | failed
  deriving DecidableEq, Repr

/-- The outcome of a request about a process. -/
inductive ProcessReply where
  | ok | unknown | failed
  deriving DecidableEq, Repr

/-- What the execution of a plan reports on the way. -/
inductive ApplyEvent where
  | stage (stage : ApplyStage)
  | checkpoint (process : ProcessRef) (intentTag : String)
  | output (stage : ApplyStage) (stream message : String)
  deriving DecidableEq, Repr

inductive ApplyResult where
  | ready (endpoint : String) (process : ProcessRef)
  | failed (stage : ApplyStage)
  deriving DecidableEq, Repr

/-- Requests and checks that only succeed or fail. -/
inductive Remote where
  | decodeSpec | source | restore
  | authorize | service | template | resolveSource
  deriving DecidableEq, Repr

/-- The fields of a request that decide what is executed. -/
structure RequestIdentity where
  installationID : Nat
  repositoryID : Nat
  ref : String
  commitSHA : String
  configPath : String
  templateID : String
  ttlSeconds : Nat
  deriving DecidableEq, Repr

/-- A request to create a deployment, after its repository has been resolved. -/
structure CreateRequest where
  accountID : Nat
  key : String
  identity : RequestIdentity
  deriving DecidableEq, Repr

inductive Response where
  | deployment (status : Nat) (d : Deployment)
  | empty (status : Nat)
  | error (status : Nat) (code message : String)
  deriving DecidableEq, Repr

/-- What a handler looks up beyond the store: the repository, the source, and the service. -/
structure Resolved where
  scope : Scope := ⟨.account, 1⟩
  repositoryID : Nat := 1
  repositoryFullName : String := ""
  source : Source := {}
  pullRequestTitle : String := ""
  plan : Plan := {}
  service : Service := {}
  region : String := ""
  deriving DecidableEq, Repr

structure State where
  store : Store
  /-- The transactions that hold the lock of a scope. -/
  scopeLocks : Scope → Option Nat
  /-- The ids that deployments have had. -/
  usedIDs : List String
  /-- The committed creating writes and the creations, the last one first: the deployment and the
  attempt. -/
  commits : List (String × Nat)
  creations : List (String × Nat)
  /-- The threads between the two, with the attempt. -/
  tickets : List (Nat × String × Nat)
  /-- The sandboxes that were created, with the deployment and the attempt. -/
  sandboxes : List (String × String × Nat)
  /-- The sandboxes that were closed, or were reported missing. -/
  gone : List String
  /-- The attempts that a lookup has found no sandbox for, with the clock at least two minutes past
  the expiry in the row of the deployment. -/
  settled : List (String × Nat)
  /-- The deployments that were retried with a sandbox in their row. -/
  overwritten : List String
  /-- The answers to requests to create a deployment. -/
  answers : List (CreateRequest × Response)

def Store.withSandbox (store : Store) : List Deployment :=
  store.deployments.rows.filter fun d => d.sandboxID ≠ ""

/-- The sandboxes in the rows were created before. -/
def State.initial (store : Store) : State where
  store := store
  scopeLocks _ := none
  usedIDs := store.deployments.rows.map Deployment.id
  commits := store.withSandbox.map fun d => (d.id, d.attempt)
  creations := store.withSandbox.map fun d => (d.id, d.attempt)
  tickets := []
  sandboxes := store.withSandbox.map fun d => (d.sandboxID, d.id, d.attempt)
  gone := []
  settled := []
  overwritten := []
  answers := []

/-- All processes die. -/
def State.restart (s : State) : State := { s with scopeLocks := fun _ => none, tickets := [] }

inductive Call where
  | now
  /-- The clock, read after a lookup has found no sandbox for the deployment. -/
  | nowAfterLookup (d : Deployment)
  | listWork (kind : WorkKind) (id : String)
  | getDeployment (purpose : Purpose) (id : String)
  | getRevision (id : String) (number : Nat)
  | updateDeployment (w : Site) (d : Deployment)
  | appendEvent (e : DeploymentEvent)
  | listPrunable (before : Time) (limit : Nat)
  | prune (records : List Deployment) (before : Time)
  | fillTitle (id ref title : String)
  | lockScope (scope : Scope)
  | checkQuota (d : Deployment) (excludeID : String)
  | commitCreate (d : Deployment) (event : DeploymentEvent)
  | commitRetry (d : Deployment) (expiresAt : Time) (event : DeploymentEvent)
  | createRuntime (d : Deployment) (attempt : Nat)
  | reconcile (d : Deployment)
  | connect (d : Deployment)
  | close (handle : Handle)
  | stopProcess (process : ProcessRef)
  | inspect (process : ProcessRef)
  | remote (request : Remote)
  | applyLength
  | applyEvent
  | applyResult
  | newDeploymentID
  | resolve
  | respond (request : Option CreateRequest) (r : Response)

abbrev Reply : Call → Type
  | .now => Time
  | .nowAfterLookup _ => Time
  | .listWork _ _ => Option Deployment
  | .getDeployment _ _ => Except StoreError Deployment
  | .getRevision _ _ => Except StoreError Revision
  | .updateDeployment _ _ => Option StoreError
  | .listPrunable _ _ => List Deployment
  | .lockScope _ => Option StoreError
  | .checkQuota _ _ => Option StoreError
  | .commitCreate _ _ => Option StoreError
  | .commitRetry _ _ _ => Option StoreError
  | .createRuntime _ _ => CreateResult
  | .reconcile _ => Reconciled
  | .connect _ => Connected
  | .close _ => Bool
  | .stopProcess _ => ProcessReply
  | .inspect _ => ProcessReply
  | .remote _ => Bool
  | .applyLength => Nat
  | .applyEvent => ApplyEvent
  | .applyResult => ApplyResult
  | .newDeploymentID => String
  | .resolve => Resolved
  | _ => Unit

/-- What the surroundings choose: the clock, whether the store fails a transaction or loses the
reply to it, and what requests come back with. -/
structure Choice where
  ticks : Nat := 0
  fails : Bool := false
  lost : Bool := false
  unaudited : Bool := false
  create : CreateResult := .failed
  /-- A sandbox that a creation without an outcome has made. -/
  hidden : Option String := none
  reconciled : Reconciled := .none
  process : ProcessReply := .ok
  length : Nat := 0
  event : ApplyEvent := .stage .preparing
  result : ApplyResult := .failed .preparing
  text : String := ""
  resolved : Resolved := {}

/-- The clock never shows the zero time. -/
def Choice.now (x : Choice) : Time := x.ticks + 1

/-- How long after its expiry a deployment may still get the sandbox of an attempt. -/
def createGrace : Time := 2 * 60 * 1000

/-! ### Transactions -/

/-- What is recorded of a committed update; a thread that does not hear of it goes no further. -/
def State.record (s : State) (i : Nat) (w : Site) (d : Deployment) (lost : Bool) : State :=
  if w = .creating then
    { s with
      commits := (d.id, d.attempt) :: s.commits
      tickets := if lost then s.tickets else (i, d.id, d.attempt) :: s.tickets }
  else s

/-- The reply to a transaction that has committed. -/
def replied (lost : Bool) : Option StoreError := if lost then some .database else none

def State.updateDeployment (s : State) (i : Nat) (w : Site) (d : Deployment) (x : Choice) :
    Option StoreError × State :=
  match s.store.updateDeployment d x.now with
  | .error e => (some e, s)
  | .ok store => (replied x.lost, { s.record i w d x.lost with store := store })

/-- The end of a transaction releases the lock of its scope. -/
def State.release (s : State) (i : Nat) (scope : Scope) : State :=
  if s.scopeLocks scope = some i then
    { s with scopeLocks := Function.update s.scopeLocks scope none } else s

def State.lockScope (s : State) (i : Nat) (scope : Scope) (x : Choice) :
    Option (Option StoreError × State) :=
  if x.fails then some (some .notFound, s)
  else if s.scopeLocks scope = none then
    some (none, { s with scopeLocks := Function.update s.scopeLocks scope (some i) })
  else none

def State.checkQuota (s : State) (maxConcurrent i : Nat) (d : Deployment) (excludeID : String)
    (x : Choice) : Option StoreError × State :=
  if x.fails then (some .database, s.release i d.scope)
  else
    match s.store.checkDeploymentQuota d maxConcurrent excludeID with
    | .error e => (some e, s.release i d.scope)
    | .ok () => (none, s)

/-- The rest of an admission, with its audit event, as one transaction. -/
def commitAdmission (admitted : Except StoreError Store) (event : DeploymentEvent) (x : Choice) :
    Except StoreError Store :=
  if x.fails then .error .database
  else
    match admitted with
    | .error e => .error e
    | .ok store =>
      match store.appendDeploymentEvent event x.now with
      | .error e => .error e
      | .ok store => if x.unaudited then .error .audit else .ok store

def State.commitCreate (s : State) (i : Nat) (d : Deployment) (event : DeploymentEvent)
    (x : Choice) : Option StoreError × State :=
  match commitAdmission (s.store.createDeployment d x.now) event x with
  | .error e => (some e, s.release i d.scope)
  | .ok store =>
    (replied x.lost, { s.release i d.scope with store := store, usedIDs := trimSpace d.id :: s.usedIDs })

def State.commitRetry (s : State) (i : Nat) (d : Deployment) (expiresAt : Time)
    (event : DeploymentEvent) (x : Choice) : Option StoreError × State :=
  match commitAdmission (s.store.retryDeployment d expiresAt x.now) event x with
  | .error e => (some e, s.release i d.scope)
  | .ok store =>
    (replied x.lost,
      { s.release i d.scope with
        store := store
        overwritten :=
          if (s.store.find d.id).any fun row => row.sandboxID ≠ "" then d.id :: s.overwritten
          else s.overwritten })

/-! ### The provider -/

/-- The id of a sandbox that there has not been before. -/
def State.NewSandbox (s : State) (sandboxID : String) : Prop :=
  sandboxID ≠ "" ∧ trimSpace sandboxID = sandboxID ∧ sandboxID ∉ s.sandboxes.map Prod.fst

instance (s : State) (sandboxID : String) : Decidable (s.NewSandbox sandboxID) :=
  inferInstanceAs (Decidable (_ ∧ _ ∧ _))

/-- The creation of an attempt is under way. -/
def State.begin (s : State) (i : Nat) (id : String) (attempt : Nat) : State :=
  { s with
    creations := (id, attempt) :: s.creations
    tickets := s.tickets.erase (i, id, attempt) }

/-- A creation makes at most one sandbox. Without an outcome, it may have made one or not. -/
def State.createRuntime (s : State) (i : Nat) (id : String) (attempt : Nat) (x : Choice) :
    Option (CreateResult × State) :=
  let made := match x.create with
    | .made handle _ => some handle.sandboxID
    | .pending => x.hidden
    | .failed => none
  match made with
  | none => some (x.create, s.begin i id attempt)
  | some sandboxID =>
    if s.NewSandbox sandboxID then
      some (x.create,
        { s.begin i id attempt with sandboxes := (sandboxID, id, attempt) :: s.sandboxes })
    else none

def formatAttempt (attempt : Nat) : Nat := max attempt 1

/-- A lookup finds only a sandbox of the attempt. -/
def State.reconcile (s : State) (d : Deployment) (x : Choice) : Option Reconciled :=
  match x.reconciled with
  | .found handle =>
    if (handle.sandboxID, d.id, formatAttempt d.attempt) ∈ s.sandboxes then
      some (.found handle) else none
  | r => some r

/-- The lookup counts if it was made for the row as it is. -/
def State.settle (s : State) (d : Deployment) : State :=
  if (s.store.find d.id).any fun row => row.version = d.version then
    { s with settled := (d.id, d.attempt) :: s.settled } else s

/-- A connection is to the sandbox of the deployment and to no other. -/
def State.connect (s : State) (d : Deployment) (x : Choice) : Connected × State :=
  match x.process with
  | .ok => (.found ⟨d.sandboxID, 0⟩, s)
  | .unknown => (.missing, { s with gone := d.sandboxID :: s.gone })
  | .failed => (.failed, s)

def serve (maxConcurrent i : Nat) : (c : Call) → Choice → State → Option (Reply c × State)
  | .now, x, s => some (x.now, s)
  | .nowAfterLookup d, x, s =>
    some (x.now, if x.now < d.expiresAt + createGrace then s else s.settle d)
  | .listWork kind id, x, s =>
    some (if x.fails then none else (s.store.find id).filter (·.isWork x.now kind), s)
  | .getDeployment _ id, x, s =>
    some (if x.fails then .error .database
      else match s.store.find (trimSpace id) with
        | none => .error .notFound
        | some d => .ok d, s)
  | .getRevision id number, x, s =>
    some (if x.fails then .error .database
      else match s.store.revision (trimSpace id) number with
        | none => .error .notFound
        | some r => .ok r, s)
  | .updateDeployment w d, x, s =>
    some (if x.fails then (some .database, s) else s.updateDeployment i w d x)
  | .appendEvent e, x, s =>
    some ((), if x.fails then s else { s with store := s.store.commit x.now (.appendEvent e) })
  | .listPrunable before limit, x, s =>
    some (if x.fails then [] else s.store.prunable before limit, s)
  | .prune records before, x, s =>
    some ((), if x.fails then s else { s with store := s.store.pruneDeployments records before })
  | .fillTitle id ref title, x, s =>
    some ((), if x.fails then s
      else { s with store := s.store.commit x.now (.fillTitle id ref title) })
  | .lockScope scope, x, s => s.lockScope i scope x
  | .checkQuota d excludeID, x, s => some (s.checkQuota maxConcurrent i d excludeID x)
  | .commitCreate d event, x, s => some (s.commitCreate i d event x)
  | .commitRetry d expiresAt event, x, s => some (s.commitRetry i d expiresAt event x)
  | .createRuntime d attempt, x, s => s.createRuntime i d.id attempt x
  | .reconcile d, x, s => (s.reconcile d x).map fun r => (r, s)
  | .connect d, x, s => some (s.connect d x)
  | .close handle, x, s =>
    some (if x.fails then (false, s) else (true, { s with gone := handle.sandboxID :: s.gone }))
  | .stopProcess _, x, s => some (x.process, s)
  | .inspect _, x, s => some (x.process, s)
  | .remote _, x, s => some (!x.fails, s)
  | .applyLength, x, s => some (x.length, s)
  | .applyEvent, x, s => some (x.event, s)
  | .applyResult, x, s => some (x.result, s)
  | .newDeploymentID, x, s => some (x.text, s)
  | .resolve, x, s => some (x.resolved, s)
  | .respond request r, _, s =>
    some ((), match request with
      | none => s
      | some request => { s with answers := (request, r) :: s.answers })

abbrev ask (c : Call) : Prog Reply (Reply c) := Prog.ask c

end CiRunner.Deployments
