import CiRunner.Threads.Outline
import CiRunner.Deployments.Cores

/-! What a thread of the deployment machine knows: the copies of deployments it has
read or written, what has become of sandboxes, the attempt it is to create, and, in an
admission, that the scope it has locked has a place left. The steps of other threads
cannot make any of it false. -/

namespace CiRunner.Deployments

open Text Threads Tables
open CiRunner.State (Time)

/-! ### Facts -/

/-- The deployment is gone or has been written since. -/
def State.Past (s : State) (id : String) (version : Nat) : Prop :=
  (s.store.find id = none ∧ id ∈ s.usedIDs) ∨
    ∃ row, s.store.find id = some row ∧ version < row.version

/-- The copy is that of the row, or of one before. -/
def State.Seen (s : State) (d : Deployment) : Prop :=
  s.Past d.id d.version ∨ ∃ row, s.store.find d.id = some row ∧ row.core = d.core

/-- A sandbox of the attempt may be left, and no lookup has found otherwise. -/
def State.Unresolved (s : State) (id : String) (attempt : Nat) : Prop :=
  ((∃ sandboxID, (sandboxID, id, attempt) ∈ s.sandboxes ∧ sandboxID ∉ s.gone) ∨
    ∃ j, (j, id, attempt) ∈ s.tickets) ∧ (id, attempt) ∉ s.settled

/-- The creation of the attempt is still to be made, and no lookup has given it up. -/
def State.Pending (s : State) (id : String) (attempt : Nat) : Prop :=
  (∃ j, (j, id, attempt) ∈ s.tickets) ∧ (id, attempt) ∉ s.settled

inductive Fact where
  | copy (d : Deployment)
  | gone (sandboxID : String)
  | made (sandboxID id : String) (attempt : Nat)
  /-- The creation of the attempt has been made and has left no sandbox. -/
  | unmade (id : String) (attempt : Nat)
  /-- A lookup has found no sandbox of the attempt. -/
  | unfound (id : String) (attempt version : Nat)
  /-- The lookup counts, if the deployment still has the version. -/
  | lookedUp (id : String) (attempt version : Nat)
  | settled (id : String) (attempt : Nat)
  /-- The creation of the attempt is to be made by this thread. -/
  | ticket (id : String) (attempt : Nat)
  /-- No sandbox is left or still to be made as long as the deployment has the version. -/
  | clear (id : String) (version : Nat)
  | locked (scope : Scope)
  /-- The scope has a place for the deployment. -/
  | place (scope : Scope) (excludeID : String)
  deriving DecidableEq

abbrev Know := List Fact

/-- The fact is true of the state, for thread `i` and the given limit of a scope. -/
def Fact.Holds (limit i : Nat) (s : State) : Fact → Prop
  | .copy d => d.core.Ok ∧ s.Seen d
  | .gone sandboxID => sandboxID ∈ s.gone
  | .made sandboxID id attempt => (sandboxID, id, attempt) ∈ s.sandboxes
  | .unmade id attempt =>
    (id, attempt) ∈ s.creations ∧ ∀ sandboxID, (sandboxID, id, attempt) ∉ s.sandboxes
  | .unfound _ _ _ => True
  | .lookedUp id attempt version => s.Past id version ∨ (id, attempt) ∈ s.settled
  | .settled id attempt => (id, attempt) ∈ s.settled
  | .ticket id attempt => (i, id, attempt) ∈ s.tickets
  | .clear id version =>
    s.Past id version ∨ ∃ row, s.store.find id = some row ∧ row.version = version ∧
      (∀ attempt, ¬s.Pending id attempt) ∧
      (id ∈ s.overwritten ∨ ∀ attempt, ¬s.Unresolved id attempt)
  | .locked scope => s.scopeLocks scope = some i
  | .place scope excludeID => s.scopeLocks scope = some i ∧ s.store.active scope excludeID < limit

def Holds (limit i : Nat) (κ : Know) (s : State) : Prop := ∀ f ∈ κ, f.Holds limit i s

/-- Without what the end of an admission takes away. -/
def Fact.isLock : Fact → Bool
  | .locked _ | .place _ _ => true
  | _ => false

def Know.released (κ : Know) : Know := κ.filter fun f => !f.isLock

/-! ### Obligations -/

/-- What a place has to know for what it does to the evidence of a sandbox. -/
def Site.Evidence (κ : Know) : Site → Core → Core → Prop
  | .created, c, d | .recovered, c, d | .stopRecovered, c, d =>
    .made d.sandboxID c.id c.attempt ∈ κ
  | .createFailed, c, d =>
    d.sandboxID = "" → (c.sandboxID = "" ∧ .unmade c.id c.attempt ∈ κ) ∨
      (c.sandboxID ≠ "" ∧ .gone c.sandboxID ∈ κ)
  | .applyFailed, c, d => d.sandboxID = "" → c.sandboxID ≠ "" ∧ .gone c.sandboxID ∈ κ
  | .applyExpired, c, _ => c.sandboxID ≠ "" ∧ .gone c.sandboxID ∈ κ
  | .recoveryLost, c, _ => .lookedUp c.id c.attempt c.version ∈ κ
  | .stopped, c, _ =>
    (c.sandboxID ≠ "" ∧ .gone c.sandboxID ∈ κ) ∨
      (c.sandboxID = "" ∧ (c.attempt = 0 ∨ .settled c.id c.attempt ∈ κ ∨ .clear c.id c.version ∈ κ))
  | _, _, _ => True

structure Deployment.New (d : Deployment) : Prop where
  status : d.status = .queued
  sandboxID : d.sandboxID = ""
  attempt : d.attempt = 0
  version : d.version = 0
  failure : d.failure = {}

def may (κ : Know) : Call → Prop
  | .updateDeployment w d =>
    ∃ c, .copy c ∈ κ ∧ w.Writes c.core d.core ∧ w.Evidence κ c.core d.core
  | .createRuntime d attempt => .ticket d.id attempt ∈ κ
  | .nowAfterLookup d =>
    .unfound d.id d.attempt d.version ∈ κ ∧ ∃ c, .copy c ∈ κ ∧ c.core = d.core
  | .checkQuota d _ => .locked d.scope ∈ κ
  | .commitCreate d _ => d.New ∧ .place d.scope "" ∈ κ
  | .commitRetry d _ _ =>
    .place d.scope d.id ∈ κ ∧ ∃ c, .copy c ∈ κ ∧ c.id = d.id ∧ c.version = d.version ∧
      c.scope = d.scope
  | _ => True

/-! ### Replies -/

/-- A sandbox as the provider names it. -/
def Named (sandboxID : String) : Prop := sandboxID ≠ "" ∧ trimSpace sandboxID = sandboxID

def tells (_κ : Know) : (c : Call) → Reply c → Prop
  | .getDeployment _ id, .ok d => d.core.Ok ∧ d.id = trimSpace id
  | .listWork _ id, some d => d.core.Ok ∧ d.id = id
  | .createRuntime _ _, .made handle _ => Named handle.sandboxID
  | .reconcile _, .found handle => Named handle.sandboxID
  | .connect d, .found handle => handle.sandboxID = d.sandboxID
  | _, _ => True

/-- The lookups that an accepted update confirms. -/
def Know.confirmed (κ : Know) (d : Deployment) : Know :=
  κ.filterMap fun
    | .lookedUp id attempt version =>
      if id = d.id ∧ version = d.version then some (.settled id attempt) else none
    | _ => none

/-- What an accepted update tells of the attempt. -/
def Site.learned (d : Deployment) : Site → Know
  | .creating => [.ticket d.id d.attempt]
  | .stopping true => [.clear d.id (d.version + 1)]
  | _ => []

def learn (κ : Know) : (c : Call) → Reply c → Know
  | .getDeployment _ _, .ok d => .copy d :: κ
  | .listWork _ _, some d => .copy d :: κ
  | .updateDeployment w d, none =>
    .copy { d with version := d.version + 1 } :: (w.learned d ++ κ.confirmed d ++ κ)
  | .createRuntime d attempt, .made handle _ =>
    .made handle.sandboxID d.id attempt :: κ.filter (· ≠ .ticket d.id attempt)
  | .createRuntime d attempt, .failed =>
    .unmade d.id attempt :: κ.filter (· ≠ .ticket d.id attempt)
  | .createRuntime d attempt, .pending => κ.filter (· ≠ .ticket d.id attempt)
  | .reconcile d, .found handle => .made handle.sandboxID d.id (formatAttempt d.attempt) :: κ
  | .reconcile d, .none => .unfound d.id d.attempt d.version :: κ
  | .nowAfterLookup d, now =>
    if now < d.expiresAt + createGrace then κ else .lookedUp d.id d.attempt d.version :: κ
  | .connect d, .missing => .gone d.sandboxID :: κ
  | .close handle, true => .gone handle.sandboxID :: κ
  | .lockScope scope, none => .locked scope :: κ
  | .checkQuota d excludeID, none => .place d.scope excludeID :: κ
  | .checkQuota _ _, some _ => Know.released κ
  | .commitCreate _ _, _ => Know.released κ
  | .commitRetry _ _ _, _ => Know.released κ
  | _, _ => κ

/-! ### Effects -/

/-- What one step of thread `i` may do to the state. -/
structure Grows (i : Nat) (s s' : State) : Prop where
  used : s.usedIDs ⊆ s'.usedIDs
  /-- A row stays as it is, gets a higher version, is deleted, or is new. -/
  rows : ∀ id, (s'.store.find id).map Deployment.core = (s.store.find id).map Deployment.core ∨
    (∃ d d', s.store.find id = some d ∧ s'.store.find id = some d' ∧ d.version < d'.version) ∨
    (s'.store.find id = none ∧ id ∈ s'.usedIDs) ∨ (s.store.find id = none ∧ id ∉ s.usedIDs)
  gone : s.gone ⊆ s'.gone
  settled : s.settled ⊆ s'.settled
  creations : s.creations ⊆ s'.creations
  overwritten : s.overwritten ⊆ s'.overwritten
  sandboxes : s.sandboxes ⊆ s'.sandboxes
  /-- A sandbox is made by the thread that is to make it. -/
  made : ∀ {sandboxID id attempt}, (sandboxID, id, attempt) ∈ s'.sandboxes →
    (sandboxID, id, attempt) ∈ s.sandboxes ∨ (i, id, attempt) ∈ s.tickets
  /-- An attempt is begun with a new version of its deployment. -/
  quiet : ∀ {id}, (s'.store.find id).map Deployment.core = (s.store.find id).map Deployment.core →
    ∀ {attempt}, s'.Unresolved id attempt → s.Unresolved id attempt
  pending : ∀ {id}, (s'.store.find id).map Deployment.core = (s.store.find id).map Deployment.core →
    ∀ {attempt}, s'.Pending id attempt → s.Pending id attempt

/-- What a step leaves to thread `j`: its attempts, its locks, and the places of the scopes that it
has locked. -/
structure Spares (j : Nat) (s s' : State) : Prop where
  tickets : ∀ {p}, (j, p) ∈ s.tickets → (j, p) ∈ s'.tickets
  locks : ∀ {scope}, s.scopeLocks scope = some j → s'.scopeLocks scope = some j
  active : ∀ {scope}, s.scopeLocks scope = some j → ∀ excludeID,
    s'.store.active scope excludeID ≤ s.store.active scope excludeID

/-- What one step of thread `i` may do, to the state and to the other threads. -/
def Effect (i : Nat) (s s' : State) : Prop := Grows i s s' ∧ ∀ j, i ≠ j → Spares j s s'

section Stability

variable {limit i j : Nat} {s s' : State}

theorem Grows.past (h : Grows i s s') {id : String} {version : Nat} (hp : s.Past id version) :
    s'.Past id version := by
  obtain hsame | ⟨d, d', hd, hd', hlt⟩ | ⟨hnone, hused⟩ | ⟨hnone, hunused⟩ := h.rows id
  · rcases hp with ⟨hnone, hused⟩ | ⟨row, hrow, hlt⟩
    · rw [hnone, Option.map_none, Option.map_eq_none_iff] at hsame
      exact .inl ⟨hsame, h.used hused⟩
    · rw [hrow, Option.map_some, Option.map_eq_some_iff] at hsame
      obtain ⟨row', hrow', hcore⟩ := hsame
      refine .inr ⟨row', hrow', ?_⟩
      rw [show row'.version = row.version from congrArg Core.version hcore]
      exact hlt
  · rcases hp with ⟨hnone, -⟩ | ⟨row, hrow, hlt'⟩
    · rw [hd] at hnone
      cases hnone
    · rw [hd] at hrow
      cases hrow
      exact .inr ⟨d', hd', hlt'.trans hlt⟩
  · exact .inl ⟨hnone, hused⟩
  · rcases hp with ⟨-, hused⟩ | ⟨row, hrow, -⟩
    · exact absurd hused hunused
    · rw [hnone] at hrow
      cases hrow

/-- A row that was there is still there, or the version it had is past. -/
theorem Grows.row (h : Grows i s s') {id : String} {d : Deployment}
    (hd : s.store.find id = some d) :
    (∃ d', s'.store.find id = some d' ∧ d'.core = d.core ∧
      ∀ attempt, (s'.Pending id attempt → s.Pending id attempt) ∧
        (s'.Unresolved id attempt → s.Unresolved id attempt)) ∨ s'.Past id d.version := by
  obtain hsame | ⟨e, d', he, hd', hlt⟩ | ⟨hnone, hused⟩ | ⟨hnone, -⟩ := h.rows id
  · have hcore := hsame
    rw [hd, Option.map_some, Option.map_eq_some_iff] at hcore
    obtain ⟨d', hd', hcore⟩ := hcore
    exact .inl ⟨d', hd', hcore, fun attempt => ⟨h.pending hsame, h.quiet hsame⟩⟩
  · rw [hd] at he
    cases he
    exact .inr (.inr ⟨d', hd', hlt⟩)
  · exact .inr (.inl ⟨hnone, hused⟩)
  · rw [hd] at hnone
    cases hnone

theorem Grows.seen (h : Grows i s s') {d : Deployment} (hs : s.Seen d) : s'.Seen d := by
  rcases hs with hp | ⟨row, hrow, hcore⟩
  · exact .inl (h.past hp)
  · rcases h.row hrow with ⟨row', hrow', hcore', -⟩ | hp
    · exact .inr ⟨row', hrow', hcore'.trans hcore⟩
    · rw [show row.version = d.version from congrArg Core.version hcore] at hp
      exact .inl hp

theorem Fact.Holds.grow {f : Fact} (hlock : f.isLock = false) (h : Grows i s s')
    (hj : ∀ {id attempt}, f = .ticket id attempt → (j, id, attempt) ∈ s'.tickets)
    (htickets : ∀ {j id attempt}, (j, id, attempt) ∈ s.tickets → (id, attempt) ∉ s.creations)
    (hf : f.Holds limit j s) : f.Holds limit j s' := by
  cases f with
  | copy d => exact ⟨hf.1, h.seen hf.2⟩
  | gone sandboxID => exact h.gone hf
  | made sandboxID id attempt => exact h.sandboxes hf
  | unmade id attempt =>
    refine ⟨h.creations hf.1, fun sandboxID hmem => ?_⟩
    rcases h.made hmem with hmem | hticket
    · exact hf.2 sandboxID hmem
    · exact htickets hticket hf.1
  | unfound id attempt version => trivial
  | lookedUp id attempt version => exact hf.imp h.past fun hmem => h.settled hmem
  | settled id attempt => exact h.settled hf
  | ticket id attempt => exact hj rfl
  | clear id version =>
    rcases hf with hp | ⟨row, hrow, rfl, hpending, hclear⟩
    · exact .inl (h.past hp)
    · rcases h.row hrow with ⟨row', hrow', hcore, hquiet⟩ | hp
      · refine .inr ⟨row', hrow', congrArg Core.version hcore,
          fun attempt hq => hpending attempt ((hquiet attempt).1 hq), ?_⟩
        exact hclear.imp (fun ho => h.overwritten ho)
          fun hclear attempt hu => hclear attempt ((hquiet attempt).2 hu)
      · exact .inl hp
  | locked scope => simp [isLock] at hlock
  | place scope excludeID => simp [isLock] at hlock

theorem Fact.Holds.stable {f : Fact} (h : Grows i s s') (hj : Spares j s s')
    (htickets : ∀ {j id attempt}, (j, id, attempt) ∈ s.tickets → (id, attempt) ∉ s.creations)
    (hf : f.Holds limit j s) : f.Holds limit j s' := by
  cases f with
  | locked scope => exact hj.locks hf
  | place scope excludeID =>
    exact ⟨hj.locks hf.1, (hj.active hf.1 excludeID).trans_lt hf.2⟩
  | ticket id attempt => exact hj.tickets hf
  | _ => exact hf.grow rfl h (fun he => by cases he) htickets

theorem Grows.refl (i : Nat) (s : State) : Grows i s s where
  used := List.Subset.refl _
  rows _ := .inl rfl
  gone := List.Subset.refl _
  settled := List.Subset.refl _
  creations := List.Subset.refl _
  overwritten := List.Subset.refl _
  sandboxes := List.Subset.refl _
  made h := .inl h
  quiet _ _ h := h
  pending _ _ h := h

theorem Spares.refl (j : Nat) (s : State) : Spares j s s := ⟨id, id, fun _ _ => Nat.le_refl _⟩

theorem Effect.refl (i : Nat) (s : State) : Effect i s s := ⟨.refl i s, fun j _ => .refl j s⟩

end Stability

end CiRunner.Deployments
