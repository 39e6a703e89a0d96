import CiRunner.Threads.Machine
import CiRunner.State.Status
import CiRunner.Capacity.Counters

/-! Starts of runner requests in one process, up to the creating write. Each start
reads its request, observes the counters, reads the counts it is limited by at
moments of their own, reserves, writes the request as creating and finishes its
observation. Beside the starts, other operations move requests out of flight or
from one status in flight to another. -/

namespace CiRunner.Capacity

open Threads State

/-! ### Scopes and limits -/

/-- What a limit is on: all requests, or those that share a counter. -/
inductive Scope where
  | global
  | counter (key : CounterKey)
  deriving DecidableEq, Repr

structure Settings where
  maxConcurrentRunners : Int
  runnerAccountConcurrency : String → Int
  runnerRepositoryConcurrency : String → Int
  catalog : Catalog

variable (cfg : Settings)

/-- The limit of a scope; of a counter it is one only if it is positive. -/
def Settings.limit : Scope → Int
  | .global => cfg.maxConcurrentRunners
  | .counter (.profile key) => ((cfg.catalog.find key).map (·.maxConcurrency)).getD 0
  | .counter (.account owner) => cfg.runnerAccountConcurrency owner
  | .counter (.repository name) => cfg.runnerRepositoryConcurrency name

/-- The counters of a request whose profile is stored under the given name. -/
def counterKeys (req : RunnerRequest) (profileName : String) : List CounterKey :=
  let account := runnerRepositoryOwner req.repositoryFullName
  let repository := normalizeRunnerRepository req.repositoryFullName
  .profile (profileKey req profileName) ::
    ((if account = "" then [] else [.account account]) ++
      if repository = "" then [] else [.repository repository])

/-- The scopes a request counts in. A request without a stored profile has no profile scope. -/
def Settings.covers (req : RunnerRequest) : Scope → Bool
  | .global => true
  | .counter (.profile key) =>
    match cfg.catalog.profileForRunnerRequest req with
    | none => false
    | some profile => key = profileKey req profile.name
  | .counter (.account owner) =>
    owner ≠ "" && runnerRepositoryOwner req.repositoryFullName = owner
  | .counter (.repository name) =>
    name ≠ "" && normalizeRunnerRepository req.repositoryFullName = name

/-! ### The shared state -/

structure Row where
  req : RunnerRequest
  status : Status
  version : Nat
  deriving Repr

/-- An observation of a start: the thread it belongs to, whether its creating write has
committed or failed, and whether it has been finished. -/
structure Start where
  obs : RunnerCapacityObservation
  owner : Nat
  settled : Bool
  finished : Bool
  deriving Repr

namespace Start

def follows (a : Start) : Scope → Bool
  | .global => true
  | .counter key => key ∈ a.obs.counters.map (·.key)

/-- A reservation whose creating write has not yet committed or failed. -/
def uncommitted (a : Start) : Bool := a.obs.reserved && !a.settled

def reserve (a : Start) : Start := { a with obs := { a.obs with reserved := true } }

def settle (a : Start) : Start := { a with settled := true }

def finish (a : Start) : Start := { a with finished := true }

end Start

structure State where
  rows : List Row
  capacity : RunnerAdmissionCapacity
  starts : List Start

def State.inFlightCount (s : State) (σ : Scope) : Nat :=
  s.rows.countP fun r => r.status.inFlight && cfg.covers r.req σ

def State.uncommittedCount (s : State) (σ : Scope) : Nat :=
  s.starts.countP fun a => a.uncommitted && a.follows σ

/-- Requests in flight and reservations that may still put one there. -/
def State.load (s : State) (σ : Scope) : Nat := s.inFlightCount cfg σ + s.uncommittedCount σ

/-- A process that starts with the given requests in its store. -/
def State.initial (rows : List Row) : State := ⟨rows, .empty, []⟩

/-! ### Calls -/

inductive Call where
  | readState (id : Nat)
  | observe (req : RunnerRequest) (profileName : String)
  | inFlightCount (σ : Scope)
  | reserve (start : Nat) (uses : Uses)
  | writeCreating (id version start : Nat)
  | finish (start : Nat)
  /-- A write of an operation that does not admit anything. -/
  | other (id : Nat) (status : Status)
  | createRequest (req : RunnerRequest)

abbrev Reply : Call → Type
  | .readState _ => Option Row
  | .observe _ _ => Nat
  | .inFlightCount _ => Option Nat
  | .reserve _ _ => Option CapacityStage
  | .writeCreating _ _ _ => Bool
  | .finish _ => Unit
  | .other _ _ => Unit
  | .createRequest _ => Unit

/-- Whether the store fails the call. -/
abbrev Fault := Bool

/-- The creating write of a start has committed or failed. -/
def State.settle (s : State) (start : Nat) : State :=
  match s.starts[start]? with
  | none => s
  | some a => { s with starts := s.starts.set start a.settle }

/-- The compare-and-swap on the request's version. -/
def State.commitCreating (s : State) (id version : Nat) : Option State :=
  match s.rows[id]? with
  | none => none
  | some r =>
    if r.version = version then
      some { s with rows := s.rows.set id ⟨r.req, .creating, r.version + 1⟩ }
    else none

def serve (i : Nat) : (c : Call) → Fault → State → Option (Reply c × State)
  | .readState id, fault, s => some (if fault then none else s.rows[id]?, s)
  | .observe req profileName, _, s =>
    let (c, o) := observe s.capacity req profileName
    some (s.starts.length,
      { s with capacity := c, starts := s.starts ++ [⟨o, i, false, false⟩] })
  | .inFlightCount σ, fault, s => some (if fault then none else some (s.inFlightCount cfg σ), s)
  | .reserve start uses, _, s =>
    match s.starts[start]? with
    | none => none
    | some a =>
      match reserve s.capacity a.obs uses with
      | .error stage => some (some stage, s)
      | .ok c =>
        some (none, { s with
          capacity := c
          starts := s.starts.set start a.reserve })
  | .writeCreating id version start, fault, s =>
    match if fault then none else s.commitCreating id version with
    | none => some (false, s.settle start)
    | some s' => some (true, s'.settle start)
  | .finish start, _, s =>
    match s.starts[start]? with
    | none => none
    | some a =>
      some ((), { s with
        capacity := finish s.capacity a.obs
        starts := s.starts.set start a.finish })
  | .other id status, _, s =>
    match s.rows[id]? with
    | none => none
    | some r =>
      if status.inFlight && !r.status.inFlight then none
      else some ((), { s with rows := s.rows.set id ⟨r.req, status, r.version + 1⟩ })
  | .createRequest req, _, s => some ((), { s with rows := s.rows ++ [⟨req, .queued, 0⟩] })

/-! ### Programs -/

abbrev ask (c : Call) : Prog Reply (Reply c) := Prog.ask c

/-- The result of asking for capacity: a reservation to finish, or the check that refused it or
whose count could not be read. -/
inductive Reservation where
  | reserved (start : Nat)
  | refused (stage : CapacityStage)
  | failed (stage : CapacityStage)

/-- A count that is read only where there is a limit for it. -/
def countIfLimited (limit : Int) (σ : Scope) : Prog Reply (Option Nat) :=
  if 0 < limit then ask (.inFlightCount σ) else pure (some 0)

/-- Give the observation up. -/
def abandon (start : Nat) (r : Reservation) : Prog Reply Reservation := do
  let _ ← ask (.finish start)
  pure r

def reserveRunnerCapacity (req : RunnerRequest) (profile : RunnerProfile) :
    Prog Reply Reservation := do
  let start : Nat ← ask (.observe req profile.name)
  match ← ask (.inFlightCount .global) with
  | none => abandon start (.failed .global)
  | some globalCount =>
  if cfg.maxConcurrentRunners ≤ (globalCount : Nat) then abandon start (.refused .global) else
  let profileLimit := if req.profileName = "" then 0 else profile.maxConcurrency
  match ← countIfLimited profileLimit (.counter (.profile (profileKey req profile.name))) with
  | none => abandon start (.failed .profile)
  | some profileCount =>
  let accountKey := runnerRepositoryOwner req.repositoryFullName
  let accountLimit := if accountKey = "" then 0 else cfg.runnerAccountConcurrency accountKey
  match ← countIfLimited accountLimit (.counter (.account accountKey)) with
  | none => abandon start (.failed .account)
  | some accountCount =>
  let repositoryKey := normalizeRunnerRepository req.repositoryFullName
  let repositoryLimit :=
    if repositoryKey = "" then 0 else cfg.runnerRepositoryConcurrency repositoryKey
  match ← countIfLimited repositoryLimit (.counter (.repository repositoryKey)) with
  | none => abandon start (.failed .repository)
  | some repositoryCount =>
  let uses : Uses := ⟨⟨globalCount, cfg.maxConcurrentRunners⟩, ⟨profileCount, profileLimit⟩,
    ⟨accountCount, accountLimit⟩, ⟨repositoryCount, repositoryLimit⟩⟩
  match ← ask (.reserve start uses) with
  | some stage => abandon start (.refused stage)
  | none => pure (.reserved start)

/-- A start up to its creating write. What it does with a request that it does not admit, and
after the write, is for the other operations. -/
def startRunner (id : Nat) : Prog Reply Unit := do
  match ← ask (.readState id) with
  | none => pure ()
  | some row =>
  if row.status ≠ .queued then pure () else
  match cfg.catalog.profileForRunnerRequest row.req with
  | none => pure ()
  | some profile =>
  match ← reserveRunnerCapacity cfg row.req profile with
  | .reserved start =>
    let _ ← ask (.writeCreating id row.version start)
    ask (.finish start)
  | _ => pure ()

inductive Op where
  | startRunner (id : Nat)
  | other (id : Nat) (status : Status)
  | createRequest (req : RunnerRequest)

def machine : Machine Reply State Fault Op where
  serve := serve cfg
  prog
    | .startRunner id => startRunner cfg id
    | .other id status => ask (.other id status)
    | .createRequest req => ask (.createRequest req)
  enabled _ _ := true
  -- the counters live in the process, the requests in the store
  restart s := .initial s.rows

end CiRunner.Capacity
