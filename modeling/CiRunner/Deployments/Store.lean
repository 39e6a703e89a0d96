import Mathlib.Data.List.Sort
import CiRunner.Tables.Keyed
import CiRunner.Deployments.Record

/-! The tables of deployments, revisions and events, and the transactions on them.
An update is a compare-and-swap on the version of the row and carries the row over
to its current revision in the same transaction; a transaction that fails leaves
the tables as they are. -/

namespace CiRunner.Deployments

open Text Tables
open CiRunner.State (Time)

def bytes (s : String) : List UInt8 := s.toList.flatMap String.utf8EncodeChar

structure DeploymentEvent where
  deploymentID : String
  revisionNumber : Nat := 0
  attempt : Nat := 0
  eventType : String
  stage : String := ""
  stream : String := ""
  message : List UInt8 := []
  createdAt : Time := 0
  deriving DecidableEq, Repr

/-- Two columns of a revision that no two revisions share. -/
def Revision.key (r : Revision) : String × Nat := (r.deploymentID, r.number)

/-- The events are in the order of their numbers. -/
structure Store where
  deployments : Table Deployment.id
  revisions : Table Revision.key
  events : List DeploymentEvent

namespace Store

def empty : Store := ⟨.empty, .empty, []⟩

/-- The deployment with the given id. -/
def find (st : Store) (id : String) : Option Deployment := st.deployments.find id

def revision (st : Store) (id : String) (number : Nat) : Option Revision :=
  st.revisions.find (id, number)

end Store

inductive StoreError where
  | invalid (message : String)
  | conflict | notFound | quotaExceeded | retryNotAllowed | duplicate | audit | database
  deriving DecidableEq, Repr

/-! ### Times and revisions -/

/-- The first time that a deployment has its present status. -/
def applyDeploymentTimestamps (status : DeploymentStatus) (now : Time) (t : Timestamps) :
    Timestamps :=
  let set := fun value : Time => if value = 0 then now else value
  match status with
  | .queued => t
  | .planning => { t with planningAt := set t.planningAt }
  | .creating => { t with planningAt := set t.planningAt, creatingAt := set t.creatingAt }
  | .running =>
    { t with
      planningAt := set t.planningAt
      creatingAt := set t.creatingAt
      runningAt := set t.runningAt }
  | .stopping => { t with stoppingAt := set t.stoppingAt }
  | .completed | .expired => { t with completedAt := set t.completedAt }
  | .failed => { t with failedAt := set t.failedAt }

def revisionRecordFromDeployment (d : Deployment) (created : Time) : Revision where
  deploymentID := d.id
  number := max d.revisionNumber 1
  executionAccountID := d.executionAccountID
  source := d.source
  pullRequestTitle := d.pullRequestTitle
  plan := d.plan
  template := d.template
  status := d.status
  sandboxID := d.sandboxID
  region := d.region
  endpoint := d.endpoint
  failure := d.failure
  expiresAt := d.expiresAt
  runningAt := d.timestamps.runningAt
  createdAt := created
  updatedAt := d.updatedAt

/-- What a revision takes over from its deployment. The sandbox of a revision outlives its
cleanup. -/
def Revision.current (r : Revision) (d : Deployment) : Revision :=
  { r with
    status := d.status
    region := d.region
    template := d.template
    endpoint := d.endpoint
    failure := d.failure
    expiresAt := d.expiresAt
    runningAt := d.timestamps.runningAt
    updatedAt := d.updatedAt
    sandboxID := if d.sandboxID = "" then r.sandboxID else d.sandboxID }

def updateCurrentDeploymentRevision (st : Store) (d : Deployment) : Except StoreError Store :=
  match st.revision d.id (max d.revisionNumber 1) with
  | none => .error .conflict
  | some r => .ok { st with revisions := st.revisions.put (r.current d) }

/-! ### Admission -/

/-- The deployment holds a place of its scope. -/
def Deployment.countsForQuota (d : Deployment) : Bool :=
  d.status.active || (d.status == .failed && d.sandboxID != "")

/-- The deployments of a scope that hold a place, but for the one with the given id, if any. -/
def Store.active (st : Store) (scope : Scope) (excludeID : String) : Nat :=
  st.deployments.count fun d =>
    d.scope == scope && d.countsForQuota && (excludeID == "" || d.id != excludeID)

/-- The limit in force: without a positive one, three. -/
def quotaLimit (maxConcurrent : Nat) : Nat := if maxConcurrent < 1 then 3 else maxConcurrent

/-- Whether the scope, whose lock is held, has a place left. -/
def Store.checkDeploymentQuota (st : Store) (d : Deployment) (maxConcurrent : Nat)
    (excludeID : String) : Except StoreError Unit :=
  if quotaLimit maxConcurrent ≤ min (st.active d.scope excludeID) (quotaLimit maxConcurrent) then
    .error .quotaExceeded
  else .ok ()

def newDeploymentRecord (d : Deployment) (now : Time) : Deployment :=
  let createdAt := if d.createdAt = 0 then now else d.createdAt
  { d with
    createdAt := createdAt
    updatedAt := if d.updatedAt = 0 then createdAt else d.updatedAt
    timestamps := applyDeploymentTimestamps d.status now {} }

def Store.createDeployment (st : Store) (d : Deployment) (now : Time) : Except StoreError Store :=
  match normalizeDeployment { d with revisionNumber := 1 } with
  | .error message => .error (.invalid message)
  | .ok d =>
    let record := newDeploymentRecord d now
    let revision := revisionRecordFromDeployment record record.createdAt
    if (st.find record.id).isSome ∨ (st.revisions.find revision.key).isSome then .error .duplicate
    else .ok
      { st with
        deployments := st.deployments.insert record
        revisions := st.revisions.insert revision }

theorem Store.createDeployment_ok {st st' : Store} {d : Deployment} {now : Time}
    (h : st.createDeployment d now = .ok st') :
    ∃ d', normalizeDeployment { d with revisionNumber := 1 } = .ok d' ∧
      st.find d'.id = none ∧ st.revision d'.id 1 = none ∧
      st' = { st with
        deployments := st.deployments.insert (newDeploymentRecord d' now)
        revisions := st.revisions.insert (revisionRecordFromDeployment
          (newDeploymentRecord d' now) (newDeploymentRecord d' now).createdAt) } := by
  rcases hn : normalizeDeployment { d with revisionNumber := 1 } with message | d'
  · simp [createDeployment, hn] at h
  · have hnumber : d'.revisionNumber = 1 := by
      obtain ⟨_, _, _, rfl⟩ := normalizeDeployment_ok hn
      rfl
    simp only [createDeployment, hn] at h
    split at h
    · cases h
    · rename_i hnone
      rw [not_or, Bool.not_eq_true, Option.isSome_eq_false_iff, Option.isNone_iff_eq_none,
        Bool.not_eq_true, Option.isSome_eq_false_iff, Option.isNone_iff_eq_none] at hnone
      refine ⟨d', rfl, hnone.1, ?_, (Except.ok.inj h).symm⟩
      simpa [revision, Revision.key, revisionRecordFromDeployment, newDeploymentRecord, hnumber]
        using hnone.2

def Store.createDeploymentWithScopeLimit (st : Store) (d : Deployment) (maxConcurrent : Nat)
    (now : Time) : Except StoreError Store :=
  match st.checkDeploymentQuota d maxConcurrent "" with
  | .error e => .error e
  | .ok () => st.createDeployment d now

/-! ### Updates -/

def Deployment.updated (row d : Deployment) (now : Time) : Deployment :=
  { row with
    status := d.status
    sandboxID := trimSpace d.sandboxID
    attempt := d.attempt
    process :=
      { runtimeID := trimSpace d.process.runtimeID
        id := trimSpace d.process.id
        tag := trimSpace d.process.tag }
    service :=
      { apiURL := trimSpace d.service.apiURL
        apiKeyEncrypted := trimSpace d.service.apiKeyEncrypted
        configSource := trimSpace d.service.configSource }
    region := trimSpace d.region
    template :=
      { d.template with id := trimSpace d.template.id, name := trimSpace d.template.name }
    endpoint := trimSpace d.endpoint
    failure := { d.failure with reason := trimSpace d.failure.reason }
    error := d.error
    expiresAt := d.expiresAt
    timestamps := applyDeploymentTimestamps d.status now d.timestamps
    updatedAt := now
    version := d.version + 1 }

def Store.updateDeployment (st : Store) (d : Deployment) (now : Time) : Except StoreError Store :=
  match normalizeDeployment d with
  | .error message => .error (.invalid message)
  | .ok d =>
    match st.find d.id with
    | none => .error .conflict
    | some row =>
      if row.version = d.version then
        let saved := row.updated d now
        updateCurrentDeploymentRevision { st with deployments := st.deployments.put saved } saved
      else .error .conflict

/-- An accepted update finds the row in the version that it was read in, and its current
revision. -/
theorem Store.updateDeployment_ok {st st' : Store} {d : Deployment} {now : Time}
    (h : st.updateDeployment d now = .ok st') :
    ∃ d' row r, normalizeDeployment d = .ok d' ∧ st.find d'.id = some row ∧
      row.version = d'.version ∧ st.revision row.id (max row.revisionNumber 1) = some r ∧
      st' = { st with
        deployments := st.deployments.put (row.updated d' now)
        revisions := st.revisions.put (r.current (row.updated d' now)) } := by
  rcases hn : normalizeDeployment d with message | d'
  · simp [updateDeployment, hn] at h
  · rcases hf : st.find d'.id with _ | row
    · simp [updateDeployment, hn, hf] at h
    · by_cases hv : row.version = d'.version
      · simp only [updateDeployment, hn, hf, hv, if_true] at h
        rcases hr : st.revision row.id (max row.revisionNumber 1) with _ | r
        · simp [updateCurrentDeploymentRevision, revision, Deployment.updated] at h hr
          simp [hr] at h
        · refine ⟨d', row, r, rfl, hf, hv, hr, ?_⟩
          simp only [updateCurrentDeploymentRevision, revision, Deployment.updated] at h hr
          simp only [hr] at h
          exact (Except.ok.inj h).symm
      · simp [updateDeployment, hn, hf, hv] at h

/-! ### Retries -/

/-- The row after a retry. -/
def Deployment.retried (row d : Deployment) (expiresAt now : Time) : Deployment :=
  { row with
    executionAccountID := d.executionAccountID
    revisionNumber := row.revisionNumber + 1
    source := d.source
    pullRequestTitle := d.pullRequestTitle
    plan := d.plan
    template := d.template
    service := d.service
    region := d.region
    status := .queued
    sandboxID := ""
    process := {}
    endpoint := ""
    failure := {}
    error := ""
    expiresAt := expiresAt
    timestamps := {}
    updatedAt := now
    version := d.version + 1 }

/-- An hour, the time that a deployment is given where nothing else is said. -/
def defaultExpiry : Time := 60 * 60 * 1000

def retryRevision (saved : Deployment) (now : Time) : Revision :=
  { revisionRecordFromDeployment saved now with sandboxID := "", endpoint := "" }

def Store.retryDeployment (st : Store) (d : Deployment) (expiresAt now : Time) :
    Except StoreError Store :=
  if !d.status.terminal then .error .retryNotAllowed
  else if trimSpace d.sandboxID ≠ "" ∨ trimSpace d.process.runtimeID ≠ "" ∨
      trimSpace d.process.id ≠ "" ∨ trimSpace d.process.tag ≠ "" then
    .error .conflict
  else if d.expiresAt ≠ 0 ∧ expiresAt = 0 then .error (.invalid "deployment expiry is required")
  else
    let expiresAt := if expiresAt = 0 then now + defaultExpiry else expiresAt
    match st.find d.id with
    | none => .error .conflict
    | some row =>
      if row.version = d.version ∧ row.status.terminal then
        let saved := row.retried d expiresAt now
        if (st.revisions.find (retryRevision saved now).key).isSome then .error .duplicate
        else .ok
          { st with
            deployments := st.deployments.put saved
            revisions := st.revisions.insert (retryRevision saved now) }
      else .error .conflict

theorem Store.retryDeployment_ok {st st' : Store} {d : Deployment} {expiresAt now : Time}
    (h : st.retryDeployment d expiresAt now = .ok st') :
    d.status.terminal = true ∧ trimSpace d.sandboxID = "" ∧
    ∃ row expiresAt', st.find d.id = some row ∧ row.version = d.version ∧
      row.status.terminal = true ∧ st.revision row.id (row.revisionNumber + 1) = none ∧
      st' = { st with
        deployments := st.deployments.put (row.retried d expiresAt' now)
        revisions := st.revisions.insert (retryRevision (row.retried d expiresAt' now) now) } := by
  simp only [retryDeployment] at h
  generalize (if expiresAt = 0 then now + defaultExpiry else expiresAt) = expiry at h
  split at h
  · cases h
  · rename_i hterminal
    split at h
    · cases h
    · rename_i hclean
      split at h
      · cases h
      · rcases hf : st.find d.id with _ | row
        · simp [hf] at h
        · simp only [hf] at h
          split at h
          · rename_i hrow
            split at h
            · cases h
            · rename_i hnone
              rw [Bool.not_eq_true, Option.isSome_eq_false_iff, Option.isNone_iff_eq_none] at hnone
              refine ⟨by simpa using hterminal, by simpa using (not_or.mp hclean).1, row, _, rfl,
                hrow.1, hrow.2, ?_, (Except.ok.inj h).symm⟩
              simpa [revision, Revision.key, retryRevision, revisionRecordFromDeployment,
                Deployment.retried] using hnone
          · cases h

def Store.retryDeploymentWithScopeLimit (st : Store) (d : Deployment) (expiresAt : Time)
    (maxConcurrent : Nat) (now : Time) : Except StoreError Store :=
  match st.checkDeploymentQuota d maxConcurrent d.id with
  | .error e => .error e
  | .ok () => st.retryDeployment d expiresAt now

/-! ### Titles -/

/-- The head of a pull request: its number between two fixed texts. -/
def matchesPullRefPattern (ref : String) : Bool :=
  match (ref.toList.splitOn '/').map String.ofList with
  | ["refs", "pull", number, "head"] =>
    number.toList.all Char.isDigit && number != "" && number.toList.head? != some '0'
  | _ => false

/-- The title of a row of the given source, if it has none. -/
def filledTitle (matching : Bool) (saved title : String) : String :=
  if matching ∧ saved = "" then title else saved

def Deployment.fillTitle (id ref title : String) (d : Deployment) : Deployment :=
  { d with pullRequestTitle :=
      filledTitle (d.id = id ∧ d.plan.ref = ref) d.pullRequestTitle title }

def Revision.fillTitle (id ref title : String) (r : Revision) : Revision :=
  { r with pullRequestTitle :=
      filledTitle (r.deploymentID = id ∧ r.plan.ref = ref) r.pullRequestTitle title }

def Store.fillDeploymentPullRequestTitle (st : Store) (id ref title : String) :
    Except StoreError Store :=
  let id := trimSpace id
  let ref := trimSpace ref
  let title := trimSpace title
  if id = "" ∨ !matchesPullRefPattern ref ∨ title = "" ∨ 1024 < title.utf8ByteSize ∨
      hasControl title then
    .error (.invalid "deployment pull request title is invalid")
  else .ok
    { st with
      deployments := st.deployments.mapRows (Deployment.fillTitle id ref title) fun _ => rfl
      revisions := st.revisions.mapRows (Revision.fillTitle id ref title) fun _ => rfl }

/-! ### Retention -/

/-- The deployment has ended, nothing is left of it, and nothing has happened to it lately. -/
def Deployment.prunable (d : Deployment) (before : Time) : Bool :=
  d.status.terminal && d.sandboxID == "" && d.updatedAt < before

/-- The order in which deployments are pruned. -/
def prunedBefore (d d' : Deployment) : Prop :=
  d.updatedAt < d'.updatedAt ∨ (d.updatedAt = d'.updatedAt ∧ d.id ≤ d'.id)

instance : DecidableRel prunedBefore := fun d d' =>
  inferInstanceAs (Decidable (d.updatedAt < d'.updatedAt ∨ (d.updatedAt = d'.updatedAt ∧
    d.id ≤ d'.id)))

/-- The number of deployments that are pruned at a time. -/
def pruneLimit (limit : Nat) : Nat := if limit = 0 then 100 else min limit 1000

def Store.prunable (st : Store) (before : Time) (limit : Nat) : List Deployment :=
  ((st.deployments.rows.filter (·.prunable before)).insertionSort prunedBefore).take
    (pruneLimit limit)

/-- Delete one deployment with its events and revisions, if it still is as it was read. -/
def Store.pruneDeployment (st : Store) (before : Time) (record : Deployment) : Store :=
  match st.find record.id with
  | none => st
  | some row =>
    if row.version = record.version ∧ row.prunable before then
      { deployments := st.deployments.remove fun d => d.id == record.id
        revisions := st.revisions.remove fun r => r.deploymentID == record.id
        events := st.events.filter fun e => e.deploymentID != record.id }
    else st

theorem Store.pruneDeployment_cases (st : Store) (before : Time) (record : Deployment) :
    st.pruneDeployment before record = st ∨
    ∃ row, st.find record.id = some row ∧ row.version = record.version ∧
      row.prunable before = true ∧
      st.pruneDeployment before record =
        { deployments := st.deployments.remove fun d => d.id == record.id
          revisions := st.revisions.remove fun r => r.deploymentID == record.id
          events := st.events.filter fun e => e.deploymentID != record.id } := by
  rcases hf : st.find record.id with _ | row
  · simp [pruneDeployment, hf]
  · by_cases hp : row.version = record.version ∧ row.prunable before = true
    · exact .inr ⟨row, rfl, hp.1, hp.2, by simp [pruneDeployment, hf, hp]⟩
    · exact .inl (by simp [pruneDeployment, hf, hp])

/-- Delete the deployments read before. -/
def Store.pruneDeployments (st : Store) (records : List Deployment) (before : Time) : Store :=
  records.foldl (fun st => st.pruneDeployment before) st

/-! ### Events -/

def maxDeploymentEventMessage : Nat := 64 * 1024

def maxDeploymentEvents : Int := 2000

def maxDeploymentEventBytes : Int := 8 * 1024 * 1024

/-- The number and the bytes of the events of a revision. -/
structure EventBudget where
  count : Int
  bytes : Int

/-- There is room for a message of the given size. -/
def EventBudget.fits (b : EventBudget) (size : Int) : Bool :=
  !(maxDeploymentEvents ≤ b.count || maxDeploymentEventBytes < b.bytes + size)

/-- Delete the oldest of the given events until there is room; `none` if there never is. -/
def evictEvents (own : DeploymentEvent → Bool) (size : Int) :
    EventBudget → List DeploymentEvent → Option (EventBudget × List DeploymentEvent)
  | b, [] => if b.fits size then some (b, []) else none
  | b, e :: es =>
    if b.fits size then some (b, e :: es)
    else if own e then evictEvents own size ⟨b.count - 1, b.bytes - e.message.length⟩ es
    else (evictEvents own size b es).map fun (b', kept) => (b', e :: kept)

/-- The event with its texts trimmed and its message cut, or what is wrong with it. -/
def normalizeDeploymentEvent (e : DeploymentEvent) (now : Time) :
    Except String DeploymentEvent :=
  let id := trimSpace e.deploymentID
  let eventType := trimSpace e.eventType
  let stage := trimSpace e.stage
  let stream := trimSpace e.stream
  if id = "" ∨ eventType = "" ∨ 128 < id.utf8ByteSize ∨ 64 < eventType.utf8ByteSize ∨
      64 < stage.utf8ByteSize ∨ 32 < stream.utf8ByteSize ∨ hasControl id ∨
      hasControl eventType ∨ hasControl stage ∨ hasControl stream then
    .error "deployment event identity is invalid"
  else .ok
    { e with
      deploymentID := id
      eventType := eventType
      stage := stage
      stream := stream
      message := e.message.take maxDeploymentEventMessage
      createdAt := if e.createdAt = 0 then now else e.createdAt }

/-- The budget of a revision; the events of an old revision are counted once. -/
def Store.eventBudget (st : Store) (r : Revision) : EventBudget :=
  if r.eventBudgetInitialized then ⟨r.eventCount, r.eventBytes⟩
  else
    let own := st.events.filter fun e =>
      e.deploymentID = r.deploymentID ∧ e.revisionNumber = r.number
    ⟨own.length, (own.map fun e => e.message.length).sum⟩

def Store.appendDeploymentEvent (st : Store) (e : DeploymentEvent) (now : Time) :
    Except StoreError Store :=
  match normalizeDeploymentEvent e now with
  | .error message => .error (.invalid message)
  | .ok e =>
    match st.find e.deploymentID with
    | none => .error .notFound
    | some owner =>
      let number := if e.revisionNumber = 0 then owner.revisionNumber else e.revisionNumber
      if number ≠ owner.revisionNumber then .error .conflict
      else
        match st.revision e.deploymentID number with
        | none => .error .notFound
        | some r =>
          let size : Int := e.message.length
          let own := fun o : DeploymentEvent =>
            o.deploymentID == e.deploymentID && o.revisionNumber == number
          match evictEvents own size (st.eventBudget r) st.events with
          | none => .error .notFound
          | some (b, kept) =>
            .ok
              { st with
                events := kept ++ [{ e with revisionNumber := number }]
                revisions := st.revisions.put
                  { r with
                    eventCount := b.count + 1
                    eventBytes := b.bytes + size
                    eventBudgetInitialized := true } }

/-- An event is added to the current revision of its deployment, whose oldest events make room. -/
theorem Store.appendDeploymentEvent_ok {st st' : Store} {e : DeploymentEvent} {now : Time}
    (h : st.appendDeploymentEvent e now = .ok st') :
    ∃ (e' : DeploymentEvent) (owner : Deployment) (r : Revision) (b : EventBudget)
      (kept : List DeploymentEvent), st.find e'.deploymentID = some owner ∧
      e'.revisionNumber = owner.revisionNumber ∧
      st.revision e'.deploymentID owner.revisionNumber = some r ∧
      evictEvents (fun o => o.deploymentID == e'.deploymentID &&
        o.revisionNumber == owner.revisionNumber) e'.message.length (st.eventBudget r) st.events =
          some (b, kept) ∧
      st' = { st with
        events := kept ++ [e']
        revisions := st.revisions.put
          { r with
            eventCount := b.count + 1
            eventBytes := b.bytes + e'.message.length
            eventBudgetInitialized := true } } := by
  simp only [appendDeploymentEvent] at h
  split at h
  · cases h
  · rename_i e' _
    rcases hf : st.find e'.deploymentID with _ | owner
    · simp [hf] at h
    · simp only [hf] at h
      generalize (if e'.revisionNumber = 0 then owner.revisionNumber else e'.revisionNumber) =
        number at h
      split at h
      · cases h
      · rename_i hnumber
        rw [not_not] at hnumber
        simp only [hnumber] at h
        rcases hr : st.revision e'.deploymentID owner.revisionNumber with _ | r
        · simp [hr] at h
        · simp only [hr] at h
          split at h
          · cases h
          · rename_i b kept he
            exact ⟨{ e' with revisionNumber := owner.revisionNumber }, owner, r, b, kept, hf, rfl,
              hr, he, (Except.ok.inj h).symm⟩

theorem evictEvents_filter {own p : DeploymentEvent → Bool} {size : Int}
    (hp : ∀ e, own e = true → p e = false) :
    ∀ {es : List DeploymentEvent} {b b' : EventBudget} {kept : List DeploymentEvent},
      evictEvents own size b es = some (b', kept) → kept.filter p = es.filter p := by
  intro es
  induction es with
  | nil =>
    intro b b' kept h
    simp only [evictEvents] at h
    split at h
    · cases h
      rfl
    · cases h
  | cons e es ih =>
    intro b b' kept h
    simp only [evictEvents] at h
    split at h
    · cases h
      rfl
    · split at h
      · rename_i hown
        rw [ih h, List.filter_cons_of_neg (by simp [hp e hown])]
      · rw [Option.map_eq_some_iff] at h
        obtain ⟨⟨b₁, kept₁⟩, h₁, heq⟩ := h
        cases heq
        rw [List.filter_cons, List.filter_cons, ih h₁]

theorem evictEvents_sublist {own : DeploymentEvent → Bool} {size : Int} :
    ∀ {es : List DeploymentEvent} {b b' : EventBudget} {kept : List DeploymentEvent},
      evictEvents own size b es = some (b', kept) → kept.Sublist es := by
  intro es
  induction es with
  | nil =>
    intro b b' kept h
    simp only [evictEvents] at h
    split at h
    · cases h
      exact .slnil
    · cases h
  | cons e es ih =>
    intro b b' kept h
    simp only [evictEvents] at h
    split at h
    · cases h
      exact .refl _
    · split at h
      · exact (ih h).cons e
      · rw [Option.map_eq_some_iff] at h
        obtain ⟨⟨b₁, kept₁⟩, h₁, heq⟩ := h
        cases heq
        exact (ih h₁).cons_cons e

end CiRunner.Deployments
