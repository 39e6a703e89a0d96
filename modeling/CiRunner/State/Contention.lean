import CiRunner.Threads.Machine
import CiRunner.State.Requests

/-! The operations of the store on one table of requests, interleaved statement by
statement: reads and writes of a state, claims, releases of a lease and retries.
A write of a state carries the row it is based on, and the store counts the changes
of each row, so that a write over a changed row can be told from one that is not. -/

namespace CiRunner.State.Contention

open Threads

/-- The requests, and how often the row of each id has changed. -/
structure Store where
  rows : Requests
  changes : String → Nat

/-- A row with the number of changes that it has gone through. -/
structure Read where
  row : RunnerState
  changes : Nat
  deriving DecidableEq

def Store.read (s : Store) (key : String) : Option Read :=
  (s.rows.find key).map fun r => ⟨r, s.changes key⟩

def Store.replace (s : Store) (rows : Requests) : Store where
  rows := rows
  changes key := if rows.find key = s.rows.find key then s.changes key else s.changes key + 1

/-- The reply to a write is the row it has left, unless there is a conflict. -/
def Store.writeState (s : Store) (st : RunnerState) (now : Time) : Option Read × Store :=
  match s.rows.writeState st now with
  | none => (none, s)
  | some rows => ((s.replace rows).read (sanitizeID st.id), s.replace rows)

def Store.claimUpdate (s : Store) (candidate : RunnerState) (workerID : String)
    (now leaseTTL : Time) : Bool × Store :=
  match s.rows.claimUpdate candidate workerID now leaseTTL with
  | none => (false, s)
  | some rows => (true, s.replace rows)

inductive Call where
  | readState (id : String)
  /-- Write `st`, which is based on the given row. -/
  | writeState (base : Read) (st : RunnerState)
  | claimCandidate (now : Time)
  | claimUpdate (candidate : RunnerState) (workerID : String) (now leaseTTL : Time)
  | releaseLease (id workerID : String)
  | retryUpdate (record : RunnerState) (now : Time)
  | createRequest (row : RunnerState)

abbrev Reply : Call → Type
  | .readState _ => Option Read
  | .writeState _ _ => Option Read
  | .claimCandidate _ => Option RunnerState
  | .claimUpdate _ _ _ _ => Bool
  | .releaseLease _ _ => Unit
  | .retryUpdate _ _ => Unit
  | .createRequest _ => Unit

/-- The time at which a statement runs, or that it fails. -/
abbrev Choice := Option Time

def serve (_ : Nat) : (c : Call) → Choice → Store → Option (Reply c × Store)
  | .readState _, none, s => some (none, s)
  | .readState id, some _, s => some (s.read (sanitizeID id), s)
  | .writeState _ _, none, s => some (none, s)
  | .writeState _ st, some now, s => some (s.writeState st now)
  | .claimCandidate _, none, s => some (none, s)
  | .claimCandidate now, some _, s => some (s.rows.claimCandidate now, s)
  | .claimUpdate _ _ _ _, none, s => some (false, s)
  | .claimUpdate candidate workerID now leaseTTL, some _, s =>
    some (s.claimUpdate candidate workerID now leaseTTL)
  | .releaseLease _ _, none, s => some ((), s)
  | .releaseLease id workerID, some _, s =>
    some ((), s.replace (s.rows.releaseLease id workerID))
  | .retryUpdate _ _, none, s => some ((), s)
  | .retryUpdate record now, some _, s => some ((), s.replace (s.rows.retryUpdate record now))
  | .createRequest _, none, s => some ((), s)
  | .createRequest row, some _, s => some ((), s.replace (s.rows.createRequest row))

/-! ### Operations -/

abbrev ask (c : Call) : Prog Reply (Reply c) := Prog.ask c

/-- What a caller does to a state before it writes it. -/
structure Edit where
  apply : RunnerState → RunnerState
  id_eq : ∀ st, (apply st).id = st.id
  version_eq : ∀ st, (apply st).version = st.version

/-- A caller that notes an error. -/
def noteError : Edit := ⟨fun st => { st with error := "noted" }, fun _ => rfl, fun _ => rfl⟩

/-- Write a state after each of the edits. After a write the caller counts the version of its
copy up and goes on with it. -/
def writes : List Edit → Read → RunnerState → Prog Reply Unit
  | [], _, _ => pure ()
  | edit :: edits, base, st => do
    match ← ask (.writeState base (edit.apply st)) with
    | none => pure ()
    | some committed =>
      writes edits committed { edit.apply st with version := (edit.apply st).version + 1 }

/-- A caller of `WriteState`: read the state, then write it. -/
def updateState (id : String) (edits : List Edit) : Prog Reply Unit := do
  match ← ask (.readState id) with
  | none => pure ()
  | some base => writes edits base base.row

def claimNextRunnable (workerID : String) (now leaseTTL : Time) : Prog Reply Unit := do
  let workerID := Text.trimSpace workerID
  if workerID = "" then pure () else
  match ← ask (.claimCandidate now) with
  | none => pure ()
  | some candidate =>
    let claimed ← ask (.claimUpdate candidate workerID now leaseTTL)
    if claimed then
      let _ ← ask (.readState (RunnerState.id candidate))
      pure ()
    else pure ()

def retryRequest (id : String) (now : Time) : Prog Reply Unit := do
  match ← ask (.readState id) with
  | none => pure ()
  | some base =>
    if base.row.retryAllowed then
      let _ ← ask (.retryUpdate base.row now)
      let _ ← ask (.readState id)
      pure ()
    else pure ()

inductive Op where
  | updateState (id : String) (edits : List Edit)
  | claimNextRunnable (workerID : String) (now leaseTTL : Time)
  | releaseLease (id workerID : String)
  | retryRequest (id : String) (now : Time)
  | createRequest (req : NewRequest) (now : Time)
  | createRejectedRequest (req : NewRequest) (reason : String) (now : Time)

def machine : Machine Reply Store Choice Op where
  serve := serve
  prog
    | .updateState id edits => updateState id edits
    | .claimNextRunnable workerID now leaseTTL => claimNextRunnable workerID now leaseTTL
    | .releaseLease id workerID => ask (.releaseLease id workerID)
    | .retryRequest id now => retryRequest id now
    | .createRequest req now => ask (.createRequest (req.row now))
    | .createRejectedRequest req reason now => ask (.createRequest (req.rejectedRow reason now))
  enabled _ _ := true
  restart s := s

/-- The runs in which the updates that do not compare the version do no harm: a claim finds its
candidate at the version it was selected with, and no held lease is released. -/
def Undisturbed : machine.Condition
  | _, .claimUpdate candidate _ now _, _, s =>
    ∀ r ∈ s.rows.find candidate.id, r.status = .queued → r.leaseExpiresAt ≤ now →
      r.version = candidate.version
  | _, .releaseLease id workerID, _, s =>
    ∀ r ∈ s.rows.find (sanitizeID id), r.leaseOwner = Text.trimSpace workerID →
      r.leaseOwner = "" ∧ r.leaseExpiresAt = 0
  | _, _, _, _ => True

instance : ∀ i c x s, Decidable (Undisturbed i c x s)
  | _, .claimUpdate _ _ _ _, _, _ => inferInstanceAs (Decidable (∀ r ∈ _, _))
  | _, .releaseLease _ _, _, _ => inferInstanceAs (Decidable (∀ r ∈ _, _))
  | _, .readState _, _, _ => .isTrue trivial
  | _, .writeState _ _, _, _ => .isTrue trivial
  | _, .claimCandidate _, _, _ => .isTrue trivial
  | _, .retryUpdate _ _, _, _ => .isTrue trivial
  | _, .createRequest _, _, _ => .isTrue trivial

end CiRunner.State.Contention
