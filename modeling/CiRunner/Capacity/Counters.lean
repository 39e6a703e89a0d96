import CiRunner.Refcount.Registry
import CiRunner.Text

/-! The admission counters of one runner process. A start observes the counters
of its scopes before it reads how many requests the store has in flight, and
reserves after it: the reservations pending at the observation and all those
started since are added to the counts. The counters of a profile, an account and
a repository are shared by the starts that observe them and forgotten with the
last one. -/

namespace CiRunner.Capacity

open Refcount Text

/-! ### Requests and their capacity keys -/

structure RunnerRequest where
  repositoryFullName : String
  profileName : String
  profileSource : String
  profileScopeType : String
  profileScopeID : Int
  deriving DecidableEq, Repr

structure RunnerCapacityKey where
  source : String
  scopeType : String
  name : String
  scopeID : Int
  deriving DecidableEq, Repr

def normalizeRunnerRepository (repository : String) : String := toLower (trimSpace repository)

def runnerRepositoryOwner (repository : String) : String :=
  (cutBefore (normalizeRunnerRepository repository) '/').getD ""

def runnerCapacityProfileKey (req : RunnerRequest) : RunnerCapacityKey :=
  if req.profileSource ≠ "" ∧ req.profileSource ≠ "global" ∧ req.profileScopeType ≠ "" ∧
      0 < req.profileScopeID then
    ⟨req.profileSource, req.profileScopeType, trimSpace req.profileName, req.profileScopeID⟩
  else ⟨"global", "", trimSpace req.profileName, 0⟩

structure RunnerProfile where
  name : String
  maxConcurrency : Int
  deriving DecidableEq, Repr

/-- The stored profiles, looked up by scope and name. The database may find a profile under
another spelling of its name; it finds it under its own, and no profile is stored without one. -/
structure Catalog where
  find : RunnerCapacityKey → Option RunnerProfile
  find_name : ∀ {k p}, find k = some p → find { k with name := p.name } = some p
  name_ne : ∀ {k p}, find k = some p → k.name ≠ ""

def Catalog.profileForRunnerRequest (cat : Catalog) (req : RunnerRequest) : Option RunnerProfile :=
  if req.profileSource = "" ∨ req.profileSource = "global" then
    cat.find ⟨"global", "", trimSpace req.profileName, 0⟩
  else if req.profileSource = "scoped_custom" ∧ req.profileScopeType ≠ "" ∧
      0 < req.profileScopeID then
    cat.find ⟨"scoped_custom", req.profileScopeType, trimSpace req.profileName,
      req.profileScopeID⟩
  else none

theorem Catalog.find_of_profileForRunnerRequest {cat : Catalog} {req : RunnerRequest}
    {p : RunnerProfile} (h : cat.profileForRunnerRequest req = some p) :
    cat.find (runnerCapacityProfileKey req) = some p := by
  unfold profileForRunnerRequest at h
  split at h
  · rename_i hs
    have : ¬(req.profileSource ≠ "" ∧ req.profileSource ≠ "global" ∧ req.profileScopeType ≠ "" ∧
        0 < req.profileScopeID) := by
      rintro ⟨h1, h2, -⟩
      exact hs.elim h1 h2
    rwa [runnerCapacityProfileKey, if_neg this]
  · split at h
    · rename_i hs hc
      have : req.profileSource ≠ "" ∧ req.profileSource ≠ "global" ∧ req.profileScopeType ≠ "" ∧
          0 < req.profileScopeID :=
        ⟨fun e => hs (.inl e), fun e => hs (.inr e), hc.2⟩
      rw [runnerCapacityProfileKey, if_pos this, hc.1]
      exact h
    · cases h

/-! ### Counters and observations -/

/-- The maps of the controller, by what they are keyed with. -/
inductive CounterKey where
  | profile (key : RunnerCapacityKey)
  | account (owner : String)
  | repository (name : String)
  deriving DecidableEq, Repr

/-- Reservations ever started and reservations not finished yet. -/
structure Tally where
  started : Nat
  pending : Int
  deriving DecidableEq, Repr

structure RunnerAdmissionCapacity where
  started : Nat
  pending : Int
  counters : Registry CounterKey Tally

def RunnerAdmissionCapacity.empty : RunnerAdmissionCapacity := ⟨0, 0, .empty ⟨0, 0⟩⟩

structure CounterSnapshot where
  key : CounterKey
  cell : Nat
  started : Nat
  pending : Int
  deriving DecidableEq, Repr

structure RunnerCapacityObservation where
  started : Nat
  pending : Int
  profile : CounterSnapshot
  account : Option CounterSnapshot
  repository : Option CounterSnapshot
  reserved : Bool
  deriving Repr

def RunnerCapacityObservation.counters (o : RunnerCapacityObservation) : List CounterSnapshot :=
  o.profile :: (o.account.toList ++ o.repository.toList)

/-- The profile key of a request under the name its profile is stored with. -/
def profileKey (req : RunnerRequest) (profileName : String) : RunnerCapacityKey :=
  { runnerCapacityProfileKey req with name := profileName }

def retainCounter (R : Registry CounterKey Tally) (key : CounterKey) :
    Registry CounterKey Tally × CounterSnapshot :=
  let r := R.retain ⟨0, 0⟩ key
  let found := (r.1.cells r.2).value
  (r.1, ⟨key, r.2, found.started, found.pending⟩)

/-- An empty key has no counter. -/
def retainCounterUnlessEmpty (R : Registry CounterKey Tally) (text : String)
    (key : String → CounterKey) : Registry CounterKey Tally × Option CounterSnapshot :=
  if text = "" then (R, none)
  else
    let r := retainCounter R (key text)
    (r.1, some r.2)

def observe (c : RunnerAdmissionCapacity) (req : RunnerRequest) (profileName : String) :
    RunnerAdmissionCapacity × RunnerCapacityObservation :=
  let profile := retainCounter c.counters (.profile (profileKey req profileName))
  let account := retainCounterUnlessEmpty profile.1
    (runnerRepositoryOwner req.repositoryFullName) .account
  let repository := retainCounterUnlessEmpty account.1
    (normalizeRunnerRepository req.repositoryFullName) .repository
  ({ c with counters := repository.1 },
    ⟨c.started, c.pending, profile.2, account.2, repository.2, false⟩)

/-! ### Reserving and finishing -/

/-- The check that refused a reservation. -/
inductive CapacityStage where
  | global | profile | account | repository
  deriving DecidableEq, Repr

def CapacityStage.text : CapacityStage → String
  | .global => "global_capacity_check"
  | .profile => "profile_capacity_check"
  | .account => "account_capacity_check"
  | .repository => "repository_capacity_check"

/-- How many requests the store had in a scope, and how many it may have. -/
structure Use where
  count : Nat
  limit : Int
  deriving DecidableEq, Repr

/-- The counts and limits that a reservation is checked against. -/
structure Uses where
  global : Use
  profile : Use
  account : Use
  repository : Use
  deriving DecidableEq, Repr

/-- Count, pending reservations and those started since reach the limit. -/
def Use.full (u : Use) (pending : Int) (sinceStarted : Nat) : Bool :=
  u.limit ≤ u.count + pending + sinceStarted

/-- A limit that is not positive limits nothing. -/
def Use.fullIfLimited (u : Use) (R : Registry CounterKey Tally) (snap : Option CounterSnapshot) :
    Bool :=
  match snap with
  | none => 0 < u.limit && u.full 0 0
  | some m => 0 < u.limit && u.full m.pending ((R.cells m.cell).value.started - m.started)

def Tally.start (t : Tally) : Tally := ⟨t.started + 1, t.pending + 1⟩

def Tally.finish (t : Tally) : Tally := ⟨t.started, t.pending - 1⟩

/-- Change the shared counters that an observation follows. -/
def modifyCounters (f : Tally → Tally) (R : Registry CounterKey Tally) (ms : List CounterSnapshot) :
    Registry CounterKey Tally :=
  ms.foldl (fun R m => R.modify f m.cell) R

/-- The stage that refuses, or the counters with the reservation. -/
def reserve (c : RunnerAdmissionCapacity) (o : RunnerCapacityObservation) (u : Uses) :
    Except CapacityStage RunnerAdmissionCapacity :=
  if u.global.full o.pending (c.started - o.started) then .error .global
  else if u.profile.fullIfLimited c.counters (some o.profile) then .error .profile
  else if u.account.fullIfLimited c.counters o.account then .error .account
  else if u.repository.fullIfLimited c.counters o.repository then .error .repository
  else .ok ⟨c.started + 1, c.pending + 1, modifyCounters Tally.start c.counters o.counters⟩

/-- Take the observation's reader from each of its counters. -/
def releaseCounters (R : Registry CounterKey Tally) (ms : List CounterSnapshot) :
    Registry CounterKey Tally :=
  ms.foldl (fun R m => R.release m.key m.cell) R

def finish (c : RunnerAdmissionCapacity) (o : RunnerCapacityObservation) :
    RunnerAdmissionCapacity :=
  let c := if o.reserved then
      ⟨c.started, c.pending - 1, modifyCounters Tally.finish c.counters o.counters⟩
    else c
  { c with counters := releaseCounters c.counters o.counters }

end CiRunner.Capacity
