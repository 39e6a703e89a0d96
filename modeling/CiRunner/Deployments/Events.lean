import CiRunner.Tables.Eviction
import CiRunner.Deployments.History

/-! The retention of events. A revision keeps a bounded number of events with a bounded
number of bytes, and counts them in its row; an event that is added makes room for
itself by deleting the oldest ones, in batches that are read and deleted by their ids.
Here the events carry their ids and the loop is as it is in the source; the store of
the other modules is what remains when the ids are forgotten. -/

namespace CiRunner.Deployments

open Text Tables
open CiRunner.State (Time)

structure EventRecord where
  id : ℕ
  event : DeploymentEvent
  deriving DecidableEq, Repr

/-- The event belongs to the given revision. -/
def DeploymentEvent.of (key : String × ℕ) (e : DeploymentEvent) : Bool :=
  e.deploymentID == key.1 && e.revisionNumber == key.2

def EventRecord.of (key : String × ℕ) (r : EventRecord) : Bool := r.event.of key

theorem EventRecord.of_iff {key : String × ℕ} {r : EventRecord} :
    r.of key = true ↔ r.event.deploymentID = key.1 ∧ r.event.revisionNumber = key.2 := by
  simp [of, DeploymentEvent.of]

/-- The events in the order of their ids, and the last id that was given. -/
structure EventTable where
  rows : List EventRecord
  lastID : ℕ
  ascending : rows.Pairwise (·.id < ·.id)
  le_lastID : ∀ r ∈ rows, r.id ≤ lastID

namespace EventTable

/-- The table with some of its rows only. -/
def keep (t : EventTable) (rows : List EventRecord) (h : rows.Sublist t.rows) : EventTable where
  rows := rows
  lastID := t.lastID
  ascending := t.ascending.sublist h
  le_lastID r hr := t.le_lastID r (h.subset hr)

/-- A new event gets the next id. -/
def insert (t : EventTable) (e : DeploymentEvent) : EventTable where
  rows := t.rows ++ [⟨t.lastID + 1, e⟩]
  lastID := t.lastID + 1
  ascending := by
    rw [List.pairwise_append]
    refine ⟨t.ascending, List.pairwise_singleton _ _, fun r hr r' hr' => ?_⟩
    rw [List.mem_singleton.mp hr']
    exact Nat.lt_succ_of_le (t.le_lastID r hr)
  le_lastID r hr := by
    rcases List.mem_append.mp hr with hr | hr
    · exact (t.le_lastID r hr).trans (Nat.le_succ _)
    · rw [List.mem_singleton.mp hr]

theorem nodup (t : EventTable) : (t.rows.map EventRecord.id).Nodup :=
  (List.pairwise_map.mpr t.ascending).imp Nat.ne_of_lt

end EventTable

def EventBudget.without (b : EventBudget) (r : EventRecord) : EventBudget :=
  ⟨b.count - 1, b.bytes - r.event.message.length⟩

/-- The number of events that are read at a time. -/
def evictionBatch : ℕ := 100

/-- Delete the oldest events of a revision, batch by batch, until there is room. -/
def EventTable.evict (t : EventTable) (key : String × ℕ) (size : Int) (b : EventBudget)
    (fuel : ℕ) : Option (Option (EventBudget × EventTable)) :=
  match h : evictLoop EventRecord.id (·.fits size) EventBudget.without (·.of key) evictionBatch
      fuel b t.rows with
  | none => none
  | some none => some none
  | some (some (b', rows)) => some (some (b', t.keep rows (evictLoop_sublist h)))

/-- The tables with the ids of the events. -/
structure NumberedStore where
  deployments : Table Deployment.id
  revisions : Table Revision.key
  events : EventTable

namespace NumberedStore

/-- The store without the ids. -/
def plain (st : NumberedStore) : Store :=
  ⟨st.deployments, st.revisions, st.events.rows.map EventRecord.event⟩

def recordsOf (st : NumberedStore) (key : String × ℕ) : List EventRecord :=
  st.events.rows.filter (·.of key)

/-- Insert an event of a revision and save the budget with it. -/
def addEvent (st : NumberedStore) (r : Revision) (b : EventBudget) (events : EventTable)
    (e : DeploymentEvent) : NumberedStore :=
  { st with
    events := events.insert e
    revisions := st.revisions.put
      { r with
        eventCount := b.count + 1
        eventBytes := b.bytes + e.message.length
        eventBudgetInitialized := true } }

/-- Add an event. Nothing is returned if the loop does not end within the fuel. -/
def appendDeploymentEvent (st : NumberedStore) (fuel : ℕ) (e : DeploymentEvent) (now : Time) :
    Option (Except StoreError NumberedStore) :=
  match normalizeDeploymentEvent e now with
  | .error message => some (.error (.invalid message))
  | .ok e =>
    match st.deployments.find e.deploymentID with
    | none => some (.error .notFound)
    | some owner =>
      let number := if e.revisionNumber = 0 then owner.revisionNumber else e.revisionNumber
      if number ≠ owner.revisionNumber then some (.error .conflict)
      else
        match st.revisions.find (e.deploymentID, number) with
        | none => some (.error .notFound)
        | some r =>
          match st.events.evict (e.deploymentID, number) e.message.length
            (st.plain.eventBudget r) fuel with
          | none => none
          | some none => some (.error .notFound)
          | some (some (b, events)) =>
            some (.ok (st.addEvent r b events { e with revisionNumber := number }))

end NumberedStore

/-! ### The budget -/

def bytesOf (rows : List EventRecord) : Int :=
  ((rows.map EventRecord.event).map fun e => e.message.length).sum

/-- The number and the bytes of events. -/
def budgetOf (rows : List EventRecord) : EventBudget := ⟨rows.length, bytesOf rows⟩

theorem bytesOf_cons (r : EventRecord) (rows : List EventRecord) :
    bytesOf (r :: rows) = r.event.message.length + bytesOf rows := by
  simp [bytesOf]

theorem bytesOf_append (rows rows' : List EventRecord) :
    bytesOf (rows ++ rows') = bytesOf rows + bytesOf rows' := by
  simp [bytesOf]

theorem paid_without (b : EventBudget) (rows : List EventRecord) :
    paid EventBudget.without b rows = ⟨b.count - rows.length, b.bytes - bytesOf rows⟩ := by
  induction rows generalizing b with
  | nil => simp [paid, bytesOf]
  | cons r rows ih =>
    have h : paid EventBudget.without b (r :: rows) =
      paid EventBudget.without (b.without r) rows := rfl
    rw [h, ih]
    simp only [EventBudget.without, bytesOf_cons, List.length_cons, EventBudget.mk.injEq]
    constructor <;> omega

/-- An exact budget stays exact when the oldest events go. -/
theorem paid_budgetOf (rows : List EventRecord) (k : ℕ) :
    paid EventBudget.without (budgetOf rows) (rows.take k) = budgetOf (rows.drop k) := by
  have hlength : rows.length = (rows.take k).length + (rows.drop k).length := by
    rw [← List.length_append, List.take_append_drop]
  have hbytes : bytesOf rows = bytesOf (rows.take k) + bytesOf (rows.drop k) := by
    rw [← bytesOf_append, List.take_append_drop]
  rw [paid_without, budgetOf, budgetOf, EventBudget.mk.injEq]
  dsimp only
  constructor <;> omega

theorem fits_iff {b : EventBudget} {size : Int} :
    b.fits size = true ↔ b.count < maxDeploymentEvents ∧ b.bytes + size ≤ maxDeploymentEventBytes := by
  simp [EventBudget.fits]

/-- Without events there is room for every message. -/
theorem fits_nil {size : ℕ} (h : size ≤ maxDeploymentEventMessage) :
    (budgetOf []).fits size = true := by
  rw [fits_iff]
  simp only [budgetOf, bytesOf, maxDeploymentEvents, maxDeploymentEventBytes,
    maxDeploymentEventMessage, List.length_nil, List.map_nil, List.sum_nil] at h ⊢
  omega

/-! ### The loop -/

variable {t : EventTable} {key : String × ℕ} {size : Int} {b : EventBudget} {fuel : ℕ}

theorem EventTable.evict_eq (h : (t.rows.filter (·.of key)).length < fuel) :
    (∃ k events, Least (·.fits size) EventBudget.without b (t.rows.filter (·.of key)) k ∧
      t.evict key size b fuel =
        some (some (paid EventBudget.without b ((t.rows.filter (·.of key)).take k), events)) ∧
      events.rows = withoutOldest (·.of key) k t.rows ∧ events.lastID = t.lastID) ∨
    (∀ k ≤ (t.rows.filter (·.of key)).length,
      (paid EventBudget.without b ((t.rows.filter (·.of key)).take k)).fits size = false) ∧
      t.evict key size b fuel = some none := by
  obtain ⟨k, hk, hloop⟩ | ⟨hfull, hloop⟩ := @evictLoop_eq EventRecord EventBudget ℕ _
    EventRecord.id (·.fits size) EventBudget.without (·.of key) evictionBatch (by decide) fuel b
    t.rows t.nodup h
  · left
    unfold evict
    split
    · rename_i he
      rw [hloop] at he
      cases he
    · rename_i he
      rw [hloop] at he
      cases he
    · rename_i b' rows he
      rw [hloop] at he
      cases he
      exact ⟨k, _, hk, rfl, rfl, rfl⟩
  · refine .inr ⟨hfull, ?_⟩
    unfold evict
    split
    · rename_i he
      rw [hloop] at he
      cases he
    · rfl
    · rename_i he
      rw [hloop] at he
      cases he

theorem evictEvents_of_least {rows : List EventRecord} {k : ℕ}
    (h : Least (·.fits size) EventBudget.without b (rows.filter (·.of key)) k) :
    evictEvents (·.of key) size b (rows.map EventRecord.event) =
      some (paid EventBudget.without b ((rows.filter (·.of key)).take k),
        (withoutOldest (·.of key) k rows).map EventRecord.event) := by
  induction rows generalizing b k with
  | nil =>
    obtain rfl : k = 0 := Nat.le_zero.mp h.le
    have hb : b.fits size = true := h.room
    rw [List.map_nil, evictEvents, if_pos hb]
    rfl
  | cons r rows ih =>
    rw [List.map_cons, evictEvents]
    cases k with
    | zero =>
      have hb : b.fits size = true := h.room
      rw [if_pos hb, withoutOldest]
      rfl
    | succ k =>
      have hb : b.fits size = false := h.least 0 (Nat.succ_pos k)
      rw [hb, withoutOldest]
      by_cases hown : r.of key = true
      · have hrest : Least (·.fits size) EventBudget.without (b.without r)
            (rows.filter (·.of key)) k := by
          rw [List.filter_cons_of_pos hown] at h
          exact ⟨Nat.le_of_succ_le_succ h.le, h.room, fun j hj => h.least (j + 1) (by omega)⟩
        have hevent : r.event.of key = true := hown
        rw [if_neg (by decide), if_pos hevent, if_pos hown, List.filter_cons_of_pos hown]
        exact ih hrest
      · have hevent : ¬ r.event.of key = true := hown
        rw [List.filter_cons_of_neg hown] at h
        rw [if_neg (by decide), if_neg hevent, if_neg hown, List.filter_cons_of_neg hown, ih h]
        rfl

theorem evictEvents_of_full {rows : List EventRecord}
    (h : ∀ k ≤ (rows.filter (·.of key)).length,
      (paid EventBudget.without b ((rows.filter (·.of key)).take k)).fits size = false) :
    evictEvents (·.of key) size b (rows.map EventRecord.event) = none := by
  have hb : b.fits size = false := h 0 (Nat.zero_le _)
  induction rows generalizing b with
  | nil => rw [List.map_nil, evictEvents, hb]; rfl
  | cons r rows ih =>
    rw [List.map_cons, evictEvents, hb]
    by_cases hown : r.of key = true
    · have hevent : r.event.of key = true := hown
      rw [if_neg (by decide), if_pos hevent]
      rw [List.filter_cons_of_pos hown] at h
      have hrest : ∀ k ≤ (rows.filter (·.of key)).length, (paid EventBudget.without (b.without r)
          ((rows.filter (·.of key)).take k)).fits size = false := fun k hk =>
        h (k + 1) (Nat.succ_le_succ hk)
      exact ih hrest (hrest 0 (Nat.zero_le _))
    · have hevent : ¬ r.event.of key = true := hown
      rw [List.filter_cons_of_neg hown] at h
      rw [if_neg (by decide), if_neg hevent, ih h hb]
      rfl

/-! ### An event is added -/

namespace NumberedStore

variable {st st' : NumberedStore} {e : DeploymentEvent} {now : Time}

/-- What a successful call does: it deletes the oldest events of the current revision, as few as
it has to, and adds the event. -/
structure Appends (st : NumberedStore) (e : DeploymentEvent) (r : Revision) (k : ℕ)
    (st' : NumberedStore) : Prop where
  found : st.revisions.find (e.deploymentID, e.revisionNumber) = some r
  cut : e.message.length ≤ maxDeploymentEventMessage
  least : Least (·.fits e.message.length) EventBudget.without (st.plain.eventBudget r)
    (st.recordsOf (e.deploymentID, e.revisionNumber)) k
  added : ∃ events : EventTable,
    events.rows = withoutOldest (·.of (e.deploymentID, e.revisionNumber)) k st.events.rows ∧
    events.lastID = st.events.lastID ∧
    st' = st.addEvent r (paid EventBudget.without (st.plain.eventBudget r)
      ((st.recordsOf (e.deploymentID, e.revisionNumber)).take k)) events e

/-- The event as it is stored: with its texts trimmed, its message cut and its number filled in. -/
def Stored (st : NumberedStore) (now : Time) (e e' : DeploymentEvent) : Prop :=
  ∃ n owner, normalizeDeploymentEvent e now = .ok { e' with revisionNumber := n } ∧
    st.deployments.find e'.deploymentID = some owner ∧
    e'.revisionNumber = owner.revisionNumber ∧ (n = 0 ∨ n = owner.revisionNumber)

/-- The ways in which a call is refused before the loop. -/
inductive Refused (st : NumberedStore) (now : Time) (e : DeploymentEvent) : StoreError → Prop
  | invalid {message : String} :
    normalizeDeploymentEvent e now = .error message → Refused st now e (.invalid message)
  | owner {e' : DeploymentEvent} : normalizeDeploymentEvent e now = .ok e' →
    st.deployments.find e'.deploymentID = none → Refused st now e .notFound
  | conflict {e' : DeploymentEvent} {owner : Deployment} :
    normalizeDeploymentEvent e now = .ok e' →
    st.deployments.find e'.deploymentID = some owner → e'.revisionNumber ≠ 0 →
    e'.revisionNumber ≠ owner.revisionNumber → Refused st now e .conflict
  | revision {e' : DeploymentEvent} {owner : Deployment} :
    normalizeDeploymentEvent e now = .ok e' →
    st.deployments.find e'.deploymentID = some owner →
    st.revisions.find (e'.deploymentID, owner.revisionNumber) = none →
    Refused st now e .notFound

theorem cut_normalizeDeploymentEvent {e' : DeploymentEvent}
    (h : normalizeDeploymentEvent e now = .ok e') :
    e'.message.length ≤ maxDeploymentEventMessage := by
  simp only [normalizeDeploymentEvent] at h
  generalize (if e.createdAt = 0 then now else e.createdAt) = created at h
  split at h
  · cases h
  · cases h
    exact List.length_take_le _ _

/-- With enough fuel, a call is refused before the loop, or finds no event left to delete, or adds
the event; and it does what it does without the ids. -/
theorem appendDeploymentEvent_eq (h : st.events.rows.length < fuel) :
    (∃ error, st.Refused now e error ∧
      st.appendDeploymentEvent fuel e now = some (.error error) ∧
      st.plain.appendDeploymentEvent e now = .error error) ∨
    (∃ e' r, st.Stored now e e' ∧
      st.revisions.find (e'.deploymentID, e'.revisionNumber) = some r ∧
      e'.message.length ≤ maxDeploymentEventMessage ∧
      (∀ k ≤ (st.recordsOf (e'.deploymentID, e'.revisionNumber)).length,
        (paid EventBudget.without (st.plain.eventBudget r)
          ((st.recordsOf (e'.deploymentID, e'.revisionNumber)).take k)).fits
            e'.message.length = false) ∧
      st.appendDeploymentEvent fuel e now = some (.error .notFound) ∧
      st.plain.appendDeploymentEvent e now = .error .notFound) ∨
    ∃ e' r k st', st.Stored now e e' ∧ st.Appends e' r k st' ∧
      st.appendDeploymentEvent fuel e now = some (.ok st') ∧
      st.plain.appendDeploymentEvent e now = .ok st'.plain := by
  unfold appendDeploymentEvent Store.appendDeploymentEvent
  rcases hn : normalizeDeploymentEvent e now with message | e'
  · exact .inl ⟨_, .invalid hn, rfl, rfl⟩
  have hfindplain : st.plain.find e'.deploymentID = st.deployments.find e'.deploymentID := rfl
  dsimp only
  rw [hfindplain]
  rcases hfind : st.deployments.find e'.deploymentID with _ | owner
  · exact .inl ⟨_, .owner hn hfind, rfl, rfl⟩
  dsimp only
  by_cases hnumber : (if e'.revisionNumber = 0 then owner.revisionNumber else e'.revisionNumber) =
      owner.revisionNumber
  swap
  · rw [if_pos hnumber, if_pos hnumber]
    split at hnumber
    · exact absurd rfl hnumber
    · rename_i hzero
      exact .inl ⟨_, .conflict hn hfind hzero hnumber, rfl, rfl⟩
  have hn' : e'.revisionNumber = 0 ∨ e'.revisionNumber = owner.revisionNumber := by
    split at hnumber
    · exact .inl ‹_›
    · exact .inr hnumber
  simp only [hnumber, ne_eq, not_true_eq_false, if_false]
  have hrevplain : st.plain.revision e'.deploymentID owner.revisionNumber =
    st.revisions.find (e'.deploymentID, owner.revisionNumber) := rfl
  rw [hrevplain]
  rcases hrev : st.revisions.find (e'.deploymentID, owner.revisionNumber) with _ | r
  · exact .inl ⟨_, .revision hn hfind hrev, rfl, rfl⟩
  right
  dsimp only
  have hstored : st.Stored now e { e' with revisionNumber := owner.revisionNumber } :=
    ⟨e'.revisionNumber, owner, hn, hfind, rfl, hn'⟩
  have hcut := cut_normalizeDeploymentEvent hn
  have hfuel : (st.events.rows.filter (·.of (e'.deploymentID, owner.revisionNumber))).length <
      fuel := (List.length_filter_le _ _).trans_lt h
  have hown : (fun o : DeploymentEvent => o.deploymentID == e'.deploymentID &&
    o.revisionNumber == owner.revisionNumber) = (·.of (e'.deploymentID, owner.revisionNumber)) := rfl
  have hevents : st.plain.events = st.events.rows.map EventRecord.event := rfl
  obtain ⟨k, events, hk, hevict, hrows, hlast⟩ | ⟨hfull, hevict⟩ :=
    @EventTable.evict_eq st.events (e'.deploymentID, owner.revisionNumber) e'.message.length
      (st.plain.eventBudget r) fuel hfuel
  · right
    refine ⟨{ e' with revisionNumber := owner.revisionNumber }, r, k, _, hstored,
      ⟨hrev, hcut, hk, events, hrows, hlast, rfl⟩, ?_, ?_⟩
    · rw [hevict]
      rfl
    · rw [hown, hevents, evictEvents_of_least hk]
      simp only [plain, addEvent, EventTable.insert, hrows, List.map_append, List.map_singleton]
      rfl
  · refine .inl ⟨_, r, hstored, hrev, hcut, hfull, ?_, ?_⟩
    · rw [hevict]
    · rw [hown, hevents, evictEvents_of_full hfull]

theorem recordsOf_addEvent {r : Revision} {k : ℕ} (h : st.Appends e r k st')
    (key : String × ℕ) :
    st'.recordsOf key = if key = (e.deploymentID, e.revisionNumber) then
      (st.recordsOf key).drop k ++ [⟨st.events.lastID + 1, e⟩] else st.recordsOf key := by
  obtain ⟨events, hrows, hlast, rfl⟩ := h.added
  simp only [recordsOf, addEvent, EventTable.insert, List.filter_append, hrows, hlast]
  split
  · rename_i hkey
    have hof : EventRecord.of key ⟨st.events.lastID + 1, e⟩ = true := by
      simp [EventRecord.of_iff, hkey]
    rw [List.filter_cons_of_pos hof, List.filter_nil, ← hkey, filter_withoutOldest]
  · rename_i hkey
    have hof : ¬ EventRecord.of key ⟨st.events.lastID + 1, e⟩ = true := by
      rw [EventRecord.of_iff]
      exact fun he => hkey (Prod.ext he.1.symm he.2.symm)
    rw [List.filter_cons_of_neg hof, List.filter_nil, List.append_nil,
      filter_withoutOldest_of_disjoint]
    intro o ho
    refine Bool.eq_false_iff.mpr fun hk => hkey ?_
    rw [EventRecord.of_iff] at ho hk
    exact Prod.ext (hk.1.symm.trans ho.1) (hk.2.symm.trans ho.2)

end NumberedStore

end CiRunner.Deployments
