import CiRunner.Deployments.Events

/-! Retention over whole runs. Whatever transactions are made and whenever the service is
started again, a revision that has received an event keeps the last of its events within
the limits, and its row says exactly how many they are and how many bytes they have. -/

namespace CiRunner.Deployments

open Text Tables
open CiRunner.State (Time)

/-! ### Other transactions -/

def Revision.counters (r : Revision) : Int × Int × Bool :=
  (r.eventCount, r.eventBytes, r.eventBudgetInitialized)

def Revision.uncounted (r : Revision) : Revision := { r with eventBudgetInitialized := false }

/-- What the transactions that add no event do to the events and the budgets: they delete all
events and revisions of some deployments, and add revisions whose events are not yet counted. -/
structure KeepsBudgets (st st' : Store) (kept : String → Bool) : Prop where
  events : st'.events = st.events.filter fun e => kept e.deploymentID
  revisions : ∀ {key r'}, st'.revisions.find key = some r' →
    (st.revisions.find key = none ∧ r'.eventBudgetInitialized = false) ∨
    ∃ r, st.revisions.find key = some r ∧ kept key.1 = true ∧ r'.counters = r.counters

section KeepsBudgets

variable {st st' : Store} {d : Deployment} {now : Time}

theorem KeepsBudgets.of_revisions (hevents : st'.events = st.events)
    (h : ∀ {key r'}, st'.revisions.find key = some r' →
      (st.revisions.find key = none ∧ r'.eventBudgetInitialized = false) ∨
      ∃ r, st.revisions.find key = some r ∧ r'.counters = r.counters) :
    KeepsBudgets st st' fun _ => true where
  events := by rw [hevents, List.filter_true]
  revisions hr' := (h hr').imp_right fun ⟨r, hr, hc⟩ => ⟨r, hr, rfl, hc⟩

theorem KeepsBudgets.insert {r : Revision} (h : r.eventBudgetInitialized = false)
    (deployments : Table Deployment.id) :
    KeepsBudgets st ⟨deployments, st.revisions.insert r, st.events⟩ fun _ => true := by
  refine .of_revisions rfl fun {key r'} hr' => ?_
  obtain ⟨-, rfl, hnone⟩ | hold := Table.find_insert_cases hr'
  · exact .inl ⟨hnone, h⟩
  · exact .inr ⟨r', hold, rfl⟩

theorem uncounted_fromDeployment (d : Deployment) (created : Time) :
    (revisionRecordFromDeployment d created).eventBudgetInitialized = false := rfl

theorem uncounted_retryRevision (d : Deployment) (now : Time) :
    (retryRevision d now).eventBudgetInitialized = false := rfl

theorem counters_current (r : Revision) (d : Deployment) :
    (r.current d).counters = r.counters := rfl

theorem key_current (r : Revision) (d : Deployment) : (r.current d).key = r.key := rfl

theorem key_fillTitle (id ref title : String) (r : Revision) :
    (r.fillTitle id ref title).key = r.key := rfl

theorem counters_fillTitle (id ref title : String) (r : Revision) :
    (r.fillTitle id ref title).counters = r.counters := rfl

theorem keepsBudgets_create (h : st.createDeployment d now = .ok st') :
    KeepsBudgets st st' fun _ => true := by
  obtain ⟨d', -, -, -, rfl⟩ := Store.createDeployment_ok h
  exact KeepsBudgets.insert (uncounted_fromDeployment _ _) _

theorem keepsBudgets_update (h : st.updateDeployment d now = .ok st') :
    KeepsBudgets st st' fun _ => true := by
  obtain ⟨d', row, r, -, -, -, hr, rfl⟩ := Store.updateDeployment_ok h
  have hkey : r.key = (row.id, max row.revisionNumber 1) := Table.key_of_find hr
  refine .of_revisions rfl fun {key r'} hr' => .inr ?_
  obtain ⟨rfl, rfl, -⟩ | ⟨-, hold⟩ := Table.find_put_cases hr'
  · refine ⟨r, ?_, counters_current r _⟩
    rw [key_current, hkey]
    exact hr
  · exact ⟨r', hold, rfl⟩

theorem keepsBudgets_retry {expiresAt : Time} (h : st.retryDeployment d expiresAt now = .ok st') :
    KeepsBudgets st st' fun _ => true := by
  obtain ⟨-, -, row, expiresAt', -, -, -, -, rfl⟩ := Store.retryDeployment_ok h
  exact KeepsBudgets.insert (uncounted_retryRevision _ _) _

theorem keepsBudgets_fill {id ref title : String}
    (h : st.fillDeploymentPullRequestTitle id ref title = .ok st') :
    KeepsBudgets st st' fun _ => true := by
  simp only [Store.fillDeploymentPullRequestTitle] at h
  split at h
  · cases h
  · cases h
    refine .of_revisions rfl fun {key r'} hr' => .inr ?_
    have hmap := (Table.find_mapRows st.revisions
      (Revision.fillTitle (trimSpace id) (trimSpace ref) (trimSpace title))
      (key_fillTitle _ _ _) key).symm.trans hr'
    obtain ⟨r, hr, rfl⟩ := Option.map_eq_some_iff.mp hmap
    exact ⟨r, hr, counters_fillTitle _ _ _ r⟩

theorem keepsBudgets_prune (st : Store) (records : List Deployment) (before : Time) :
    ∃ kept, KeepsBudgets st (st.pruneDeployments records before) kept := by
  -- The revisions that are found after the deletions are those found before.
  suffices h : ∃ kept : String → Bool,
      (st.pruneDeployments records before).events = st.events.filter (kept ·.deploymentID) ∧
      ∀ key r', (st.pruneDeployments records before).revisions.find key = some r' →
        st.revisions.find key = some r' ∧ kept key.1 = true by
    obtain ⟨kept, hevents, hrevisions⟩ := h
    refine ⟨kept, hevents, fun {key r'} hr' => .inr ?_⟩
    obtain ⟨hr, hkept⟩ := hrevisions key r' hr'
    exact ⟨r', hr, hkept, rfl⟩
  induction records generalizing st with
  | nil => exact ⟨fun _ => true, by simp [Store.pruneDeployments], fun _ _ hr => ⟨hr, rfl⟩⟩
  | cons record records ih =>
    obtain ⟨kept, hevents, hrevisions⟩ := ih (st.pruneDeployment before record)
    obtain hsame | ⟨row, -, -, -, hpruned⟩ := st.pruneDeployment_cases before record
    · rw [hsame] at hevents hrevisions
      refine ⟨kept, ?_, ?_⟩
      · rw [← hevents, Store.pruneDeployments, List.foldl_cons, hsame]
        rfl
      · intro key r' hr'
        rw [Store.pruneDeployments, List.foldl_cons, hsame] at hr'
        exact hrevisions key r' hr'
    · refine ⟨fun id => kept id && id != record.id, ?_, ?_⟩
      · rw [Store.pruneDeployments, List.foldl_cons]
        refine hevents.trans ?_
        rw [hpruned, List.filter_filter]
      · intro key r' hr'
        rw [Store.pruneDeployments, List.foldl_cons] at hr'
        obtain ⟨hr, hkept⟩ := hrevisions key r' hr'
        rw [hpruned] at hr
        dsimp only at hr
        rw [Table.find_remove, Option.filter_eq_some_iff] at hr
        have hkey : r'.key = key := Table.key_of_find hr.1
        have hid : (key.1 != record.id) = true := by
          rw [← hkey]
          exact hr.2
        exact ⟨hr.1, Bool.and_eq_true_iff.mpr ⟨hkept, hid⟩⟩

theorem keepsBudgets_apply {t : Transaction} (ht : ∀ e, t ≠ .appendEvent e)
    (h : t.apply st now = .ok st') : ∃ kept, KeepsBudgets st st' kept := by
  cases t with
  | create d =>
    rw [Transaction.apply] at h
    exact ⟨_, keepsBudgets_create h⟩
  | createWithScopeLimit d maxConcurrent =>
    rw [Transaction.apply, Store.createDeploymentWithScopeLimit] at h
    split at h
    · cases h
    · exact ⟨_, keepsBudgets_create h⟩
  | update d =>
    rw [Transaction.apply] at h
    exact ⟨_, keepsBudgets_update h⟩
  | retry d expiresAt =>
    rw [Transaction.apply] at h
    exact ⟨_, keepsBudgets_retry h⟩
  | retryWithScopeLimit d expiresAt maxConcurrent =>
    rw [Transaction.apply, Store.retryDeploymentWithScopeLimit] at h
    split at h
    · cases h
    · exact ⟨_, keepsBudgets_retry h⟩
  | fillTitle id ref title =>
    rw [Transaction.apply] at h
    exact ⟨_, keepsBudgets_fill h⟩
  | appendEvent e => exact absurd rfl (ht e)
  | prune records before =>
    rw [Transaction.apply] at h
    cases h
    exact keepsBudgets_prune st records before

end KeepsBudgets

/-! ### Runs -/

namespace NumberedStore

/-- The store after a transaction that adds no event: the rows keep their ids. -/
def withTables (st : NumberedStore) (st' : Store) : NumberedStore where
  deployments := st'.deployments
  revisions := st'.revisions
  events := st.events.keep (st.events.rows.filter fun r => r.event ∈ st'.events) List.filter_sublist

/-- At every start of the service, the budgets have to be counted again. -/
def startUp (st : NumberedStore) : NumberedStore :=
  { st with revisions := st.revisions.mapRows Revision.uncounted fun _ => rfl }

inductive Step where
  | transaction (now : Time) (t : Transaction)
  | startUp

/-- A transaction that adds no event. -/
def commitOther (st : NumberedStore) (now : Time) (t : Transaction) : NumberedStore :=
  match t.apply st.plain now with
  | .ok st' => st.withTables st'
  | .error _ => st

/-- A transaction that fails changes nothing. -/
def commit (st : NumberedStore) (now : Time) : Transaction → NumberedStore
  | .appendEvent e =>
    match st.appendDeploymentEvent (st.events.rows.length + 1) e now with
    | some (.ok st') => st'
    | _ => st
  | t => st.commitOther now t

def step (st : NumberedStore) : Step → NumberedStore
  | .transaction now t => st.commit now t
  | .startUp => st.startUp

def run (st : NumberedStore) (steps : List Step) : NumberedStore := steps.foldl step st

variable {st st' : NumberedStore} {key : String × ℕ} {now : Time}

theorem commit_of_ne {t : Transaction} (ht : ∀ e, t ≠ .appendEvent e) :
    st.commit now t = st.commitOther now t := by
  cases t with
  | appendEvent e => exact absurd rfl (ht e)
  | _ => rfl

/-- What a step does to one revision, unless it adds an event to it: the revision goes, or is
new and not yet counted, or its events and its budget stay. -/
inductive Leaves (st st' : NumberedStore) (key : String × ℕ) : Prop
  | gone : st'.revisions.find key = none → Leaves st st' key
  | fresh {r' : Revision} : st.revisions.find key = none → st'.revisions.find key = some r' →
    r'.eventBudgetInitialized = false → Leaves st st' key
  | same {r r' : Revision} : st.revisions.find key = some r → st'.revisions.find key = some r' →
    r'.eventCount = r.eventCount → r'.eventBytes = r.eventBytes →
    (r'.eventBudgetInitialized = true → r.eventBudgetInitialized = true) →
    st'.recordsOf key = st.recordsOf key → Leaves st st' key

theorem Leaves.refl (st : NumberedStore) (key : String × ℕ) : Leaves st st key := by
  rcases h : st.revisions.find key with _ | r
  · exact .gone h
  · exact .same h h rfl rfl id rfl

theorem recordsOf_withTables {plain' : Store} {kept : String → Bool}
    (h : KeepsBudgets st.plain plain' kept) (key : String × ℕ) :
    (st.withTables plain').recordsOf key =
      if kept key.1 = true then st.recordsOf key else [] := by
  simp only [recordsOf, withTables, EventTable.keep, List.filter_filter]
  split
  · rename_i hkept
    refine List.filter_congr fun r hr => ?_
    rcases hof : r.of key with _ | _
    · rfl
    · have hmem : r.event ∈ plain'.events := by
        rw [h.events, List.mem_filter]
        refine ⟨List.mem_map_of_mem hr, ?_⟩
        rw [(EventRecord.of_iff.mp hof).1]
        exact hkept
      simp [hmem]
  · rename_i hkept
    rw [List.filter_eq_nil_iff]
    intro r hr hof
    rw [Bool.and_eq_true, decide_eq_true_eq, h.events, List.mem_filter] at hof
    rw [(EventRecord.of_iff.mp hof.1).1] at hof
    exact hkept hof.2.2

theorem plain_withTables {plain' : Store} {kept : String → Bool}
    (h : KeepsBudgets st.plain plain' kept) : (st.withTables plain').plain = plain' := by
  have hevents : (st.events.rows.filter fun r => r.event ∈ plain'.events).map EventRecord.event =
      plain'.events := by
    have hplain : plain'.events =
        (st.events.rows.filter fun r => kept r.event.deploymentID).map EventRecord.event := by
      rw [h.events, plain, List.filter_map]
      rfl
    rw [hplain]
    congr 1
    refine List.filter_congr fun r hr => ?_
    have hmem : r.event ∈ st.plain.events := List.mem_map_of_mem hr
    rw [← hplain]
    simp [h.events, hmem]
  rw [withTables, plain, EventTable.keep]
  dsimp only
  rw [hevents]

theorem leaves_withTables {plain' : Store} {kept : String → Bool}
    (h : KeepsBudgets st.plain plain' kept) (key : String × ℕ) :
    Leaves st (st.withTables plain') key := by
  rcases hr' : plain'.revisions.find key with _ | r'
  · exact .gone hr'
  · obtain ⟨hnone, hinit⟩ | ⟨r, hr, hkept, hcounters⟩ := h.revisions hr'
    · exact .fresh hnone hr' hinit
    · simp only [Revision.counters, Prod.mk.injEq] at hcounters
      refine .same hr hr' hcounters.1 hcounters.2.1 (fun hi => ?_) ?_
      · rw [← hcounters.2.2]
        exact hi
      · rw [recordsOf_withTables h, if_pos hkept]

theorem find_startUp (st : NumberedStore) (key : String × ℕ) :
    st.startUp.revisions.find key =
      (st.revisions.find key).map Revision.uncounted :=
  Table.find_mapRows st.revisions Revision.uncounted (fun _ => rfl) key

theorem leaves_startUp (st : NumberedStore) (key : String × ℕ) : Leaves st st.startUp key := by
  have hfind := st.find_startUp key
  rcases hr : st.revisions.find key with _ | r
  · rw [hr] at hfind
    exact .gone hfind
  · rw [hr] at hfind
    exact .same hr hfind rfl rfl nofun rfl

theorem Appends.leaves {e : DeploymentEvent} {r : Revision} {k : ℕ} (h : st.Appends e r k st')
    (hkey : key ≠ (e.deploymentID, e.revisionNumber)) : Leaves st st' key := by
  have hrecords := recordsOf_addEvent h key
  rw [if_neg hkey] at hrecords
  have hfind : st'.revisions.find key = st.revisions.find key := by
    obtain ⟨events, -, -, rfl⟩ := h.added
    have hrkey : r.key = (e.deploymentID, e.revisionNumber) := Table.key_of_find h.found
    exact Table.find_put_of_ne fun he => hkey (he.symm.trans hrkey)
  rcases hr : st.revisions.find key with _ | r'
  · exact .gone (hfind.trans hr)
  · exact .same hr (hfind.trans hr) rfl rfl id hrecords

/-- A step leaves a revision alone unless it adds an event to it. -/
theorem step_cases (st : NumberedStore) (s : Step) (key : String × ℕ) :
    (Leaves st (st.step s) key ∧
      ((st.step s).recordsOf key = st.recordsOf key ∨ (st.step s).recordsOf key = [])) ∨
    ∃ now e e' r k, s = .transaction now (.appendEvent e) ∧ st.Stored now e e' ∧
      key = (e'.deploymentID, e'.revisionNumber) ∧ st.Appends e' r k (st.step s) := by
  cases s with
  | startUp => exact .inl ⟨leaves_startUp st key, .inl rfl⟩
  | transaction now t =>
    by_cases ht : ∃ e, t = .appendEvent e
    · obtain ⟨e, rfl⟩ := ht
      simp only [step, commit]
      obtain ⟨error, -, happend, -⟩ | ⟨e', r, -, -, -, -, happend, -⟩ |
          ⟨e', r, k, st', hstored, happends, happend, -⟩ :=
        @appendDeploymentEvent_eq _ st e now (Nat.lt_succ_self st.events.rows.length)
      · rw [happend]
        exact .inl ⟨.refl st key, .inl rfl⟩
      · rw [happend]
        exact .inl ⟨.refl st key, .inl rfl⟩
      · rw [happend]
        by_cases hkey : key = (e'.deploymentID, e'.revisionNumber)
        · exact .inr ⟨now, e, e', r, k, rfl, hstored, hkey, happends⟩
        · refine .inl ⟨happends.leaves hkey, .inl ?_⟩
          rw [recordsOf_addEvent happends, if_neg hkey]
    · have hcommit : st.step (.transaction now t) = st.commitOther now t :=
        commit_of_ne fun e he => ht ⟨e, he⟩
      rw [hcommit, commitOther]
      rcases happly : t.apply st.plain now with error | plain'
      · exact .inl ⟨.refl st key, .inl rfl⟩
      · obtain ⟨kept, hkeeps⟩ := keepsBudgets_apply (fun e he => ht ⟨e, he⟩) happly
        refine .inl ⟨leaves_withTables hkeeps key, ?_⟩
        dsimp only
        rw [recordsOf_withTables hkeeps]
        split
        · exact .inl rfl
        · exact .inr rfl

theorem plain_commit (st : NumberedStore) (now : Time) (t : Transaction) :
    (st.commit now t).plain = st.plain.commit now t := by
  by_cases ht : ∃ e, t = .appendEvent e
  · obtain ⟨e, rfl⟩ := ht
    rw [Store.commit, Transaction.apply, commit]
    obtain ⟨error, -, happend, hplain⟩ | ⟨e', r, -, -, -, -, happend, hplain⟩ |
        ⟨e', r, k, st', -, -, happend, hplain⟩ :=
      @appendDeploymentEvent_eq _ st e now (Nat.lt_succ_self st.events.rows.length)
    all_goals rw [happend, hplain]
  · have hcommit : st.commit now t = st.commitOther now t := commit_of_ne fun e he => ht ⟨e, he⟩
    rw [hcommit, commitOther, Store.commit]
    rcases happly : t.apply st.plain now with error | plain'
    · rfl
    · obtain ⟨kept, hkeeps⟩ := keepsBudgets_apply (fun e he => ht ⟨e, he⟩) happly
      exact plain_withTables hkeeps

/-- Evicting the events by their ids, batch after batch, keeps the same events as the plain store
does, whatever transactions there are. -/
theorem events_by_id_refine_plain (st : NumberedStore) (ts : List (Time × Transaction)) :
    (st.run (ts.map fun t => .transaction t.1 t.2)).plain = st.plain.run ts := by
  induction ts generalizing st with
  | nil => rfl
  | cons t ts ih =>
    have hcommit : (st.step (.transaction t.1 t.2)).plain = st.plain.commit t.1 t.2 :=
      plain_commit st t.1 t.2
    exact (ih _).trans (congrArg (Store.run · ts) hcommit)

/-! ### What is kept -/

/-- The budget of a revision says how many events it has. -/
def Exact (st : NumberedStore) (key : String × ℕ) (r : Revision) : Prop :=
  r.eventCount = (st.recordsOf key).length ∧ r.eventBytes = bytesOf (st.recordsOf key)

def Counted (st : NumberedStore) : Prop :=
  ∀ key r, st.revisions.find key = some r → r.eventBudgetInitialized = true → st.Exact key r

/-- The events of a revision are within the limits, and its budget is exact. -/
def Within (st : NumberedStore) (key : String × ℕ) : Prop :=
  ∃ r, st.revisions.find key = some r ∧ st.Exact key r ∧
    ((st.recordsOf key).length : Int) ≤ maxDeploymentEvents ∧
    bytesOf (st.recordsOf key) ≤ maxDeploymentEventBytes

theorem counted_startUp (st : NumberedStore) : st.startUp.Counted := by
  intro key r hr hinit
  obtain ⟨r, -, rfl⟩ := Option.map_eq_some_iff.mp ((st.find_startUp key).symm.trans hr)
  cases hinit

/-- In a store with exact budgets, the events that are counted are those of the revision. -/
theorem Counted.eventBudget (h : st.Counted) {r : Revision} (hr : st.revisions.find key = some r) :
    st.plain.eventBudget r = budgetOf (st.recordsOf key) := by
  have hkey : r.key = key := Table.key_of_find hr
  rcases hinit : r.eventBudgetInitialized with _ | _
  · have hrows : (st.events.rows.map EventRecord.event).filter (fun e =>
        decide (e.deploymentID = r.deploymentID ∧ e.revisionNumber = r.number)) =
        (st.recordsOf key).map EventRecord.event := by
      rw [List.filter_map, recordsOf, ← hkey]
      congr 1
      refine List.filter_congr fun e _ => ?_
      rw [Function.comp_apply, EventRecord.of, DeploymentEvent.of, Bool.decide_and]
      rfl
    rw [Store.eventBudget, if_neg (by rw [hinit]; decide)]
    simp only [plain, hrows, budgetOf, bytesOf, List.length_map]
  · obtain ⟨hcount, hbytes⟩ := h key r hr hinit
    rw [Store.eventBudget, if_pos hinit, hcount, hbytes]
    rfl

theorem revision_appended {e : DeploymentEvent} {r : Revision} {k : ℕ}
    (h : st.Appends e r k st') (hst : st.Counted) :
    ∃ r', st'.revisions.find (e.deploymentID, e.revisionNumber) = some r' ∧
      r'.eventCount = ((st.recordsOf (e.deploymentID, e.revisionNumber)).drop k).length + 1 ∧
      r'.eventBytes = bytesOf ((st.recordsOf (e.deploymentID, e.revisionNumber)).drop k) +
        e.message.length := by
  obtain ⟨events, -, -, rfl⟩ := h.added
  have hrkey : r.key = (e.deploymentID, e.revisionNumber) := Table.key_of_find h.found
  rw [hst.eventBudget h.found, paid_budgetOf, ← hrkey]
  have hr := h.found
  rw [← hrkey] at hr
  exact ⟨_, Table.find_put_self hr, rfl, rfl⟩

/-- The revision that gets an event is within the limits. -/
theorem Appends.within {e : DeploymentEvent} {r : Revision} {k : ℕ} (h : st.Appends e r k st')
    (hst : st.Counted) : st'.Within (e.deploymentID, e.revisionNumber) := by
  obtain ⟨r', hr', hcount, hbytes⟩ := revision_appended h hst
  have hrecords := recordsOf_addEvent h (e.deploymentID, e.revisionNumber)
  rw [if_pos rfl] at hrecords
  have hlength : ((st'.recordsOf (e.deploymentID, e.revisionNumber)).length : Int) =
      r'.eventCount := by
    rw [hrecords, hcount, List.length_append, List.length_singleton]
    rfl
  have hsize : bytesOf (st'.recordsOf (e.deploymentID, e.revisionNumber)) = r'.eventBytes := by
    rw [hrecords, hbytes, bytesOf_append]
    simp [bytesOf]
  have hroom := h.least.room
  rw [hst.eventBudget h.found, paid_budgetOf, fits_iff] at hroom
  refine ⟨r', hr', ⟨hlength.symm, hsize.symm⟩, ?_, ?_⟩
  · rw [hlength, hcount]
    exact hroom.1
  · rw [hsize, hbytes]
    exact hroom.2

theorem Leaves.exact (h : Leaves st st' key) {r : Revision} (hr : st.revisions.find key = some r)
    (hexact : st.Exact key r) {r' : Revision} (hr' : st'.revisions.find key = some r') :
    st'.Exact key r' := by
  cases h with
  | gone hnone =>
    rw [hnone] at hr'
    cases hr'
  | fresh hnone =>
    rw [hnone] at hr
    cases hr
  | same hr₁ hr₁' hcount hbytes _ hrecords =>
    cases hr.symm.trans hr₁
    cases hr'.symm.trans hr₁'
    rw [Exact, hcount, hbytes, hrecords]
    exact hexact

theorem Counted.leaves (h : st.Counted) (hleaves : Leaves st st' key) {r' : Revision}
    (hr' : st'.revisions.find key = some r') (hinit : r'.eventBudgetInitialized = true) :
    st'.Exact key r' := by
  cases hleaves with
  | gone hnone =>
    rw [hnone] at hr'
    cases hr'
  | fresh _ hfresh hfalse =>
    cases hr'.symm.trans hfresh
    rw [hfalse] at hinit
    cases hinit
  | same hr hr₁ hcount hbytes hflag hrecords =>
    cases hr'.symm.trans hr₁
    exact Leaves.exact (.same hr hr₁ hcount hbytes hflag hrecords) hr (h key _ hr (hflag hinit)) hr'

theorem Counted.appends (h : st.Counted) {e : DeploymentEvent} {r : Revision} {k : ℕ}
    (happends : st.Appends e r k st') : st'.Counted := by
  intro key r' hr' hinit
  by_cases hkey : key = (e.deploymentID, e.revisionNumber)
  · obtain ⟨r₁, hr₁, hexact, -⟩ := happends.within h
    rw [hkey] at hr' ⊢
    cases hr'.symm.trans hr₁
    exact hexact
  · exact h.leaves (happends.leaves hkey) hr' hinit

/-- Exact budgets stay exact. -/
theorem Counted.step (h : st.Counted) (s : Step) : (st.step s).Counted := by
  intro key r' hr' hinit
  obtain ⟨hleaves, -⟩ | ⟨now, e, e', r, k, -, -, -, happends⟩ := step_cases st s key
  · exact h.leaves hleaves hr' hinit
  · exact h.appends happends key r' hr' hinit

theorem Counted.run (h : st.Counted) (steps : List Step) : (st.run steps).Counted := by
  induction steps generalizing st with
  | nil => exact h
  | cons s steps ih => exact ih (h.step s)

/-- A revision within the limits stays so while it is there. -/
theorem Within.step (h : st.Within key) (hst : st.Counted) (s : Step)
    (hthere : (st.step s).revisions.find key ≠ none) : (st.step s).Within key := by
  obtain ⟨r, hr, hexact, hlength, hbytes⟩ := h
  obtain ⟨hleaves, -⟩ | ⟨now, e, e', r, k, -, -, rfl, happends⟩ := step_cases st s key
  · obtain ⟨r', hr'⟩ := Option.ne_none_iff_exists'.mp hthere
    refine ⟨r', hr', hleaves.exact hr hexact hr', ?_⟩
    cases hleaves with
    | gone hnone => exact absurd hnone hthere
    | fresh hnone =>
      rw [hnone] at hr
      cases hr
    | same _ _ _ _ _ hrecords =>
      rw [hrecords]
      exact ⟨hlength, hbytes⟩
  · exact happends.within hst

/-- The revision is there after every step. -/
def Present (st : NumberedStore) (key : String × ℕ) : List Step → Prop
  | [] => True
  | s :: steps => (st.step s).revisions.find key ≠ none ∧ (st.step s).Present key steps

theorem Within.run (h : st.Within key) (hst : st.Counted) {steps : List Step}
    (hthere : st.Present key steps) : (st.run steps).Within key := by
  induction steps generalizing st with
  | nil => exact h
  | cons s steps ih => exact ih (h.step hst s hthere.1) (hst.step s) hthere.2

/-! ### What was added -/

def inserted (st : NumberedStore) : List Step → List EventRecord
  | [] => []
  | s :: steps =>
    (st.step s).events.rows.filter (fun r => st.events.lastID < r.id) ++ (st.step s).inserted steps

theorem suffix_append_right {l l' : List EventRecord} (h : l <:+ l') (added : List EventRecord) :
    l ++ added <:+ l' ++ added := by
  obtain ⟨front, rfl⟩ := h
  exact ⟨front, List.append_assoc .. |>.symm⟩

theorem recordsOf_step (st : NumberedStore) (s : Step) (key : String × ℕ) :
    (st.step s).recordsOf key <:+ st.recordsOf key ++
      ((st.step s).events.rows.filter fun r => st.events.lastID < r.id).filter (·.of key) := by
  obtain ⟨-, hsame | hnone⟩ | ⟨now, e, e', r, k, -, -, rfl, happends⟩ := step_cases st s key
  · have hold : ((st.step s).events.rows.filter fun r => st.events.lastID < r.id).filter
        (·.of key) = [] := by
      rw [List.filter_comm]
      change ((st.step s).recordsOf key).filter _ = []
      rw [hsame, List.filter_eq_nil_iff]
      intro r hr
      have := st.events.le_lastID r (List.mem_filter.mp hr).1
      simpa using this
    rw [hold, List.append_nil]
    exact hsame ▸ List.suffix_rfl
  · rw [hnone]
    exact List.nil_suffix
  · have hrecords := recordsOf_addEvent happends (e'.deploymentID, e'.revisionNumber)
    rw [if_pos rfl] at hrecords
    rw [List.filter_comm]
    change _ <:+ _ ++ ((st.step s).recordsOf _).filter _
    rw [hrecords, List.filter_append, List.filter_cons_of_pos (by simp), List.filter_nil]
    have hold : ((st.recordsOf (e'.deploymentID, e'.revisionNumber)).drop k).filter
        (fun r => decide (st.events.lastID < r.id)) = [] := by
      rw [List.filter_eq_nil_iff]
      intro r hr
      have := st.events.le_lastID r (List.mem_filter.mp (List.mem_of_mem_drop hr)).1
      simpa using this
    rw [hold, List.nil_append]
    exact suffix_append_right (List.drop_suffix _ _) _

theorem recordsOf_run (st : NumberedStore) (steps : List Step) (key : String × ℕ) :
    (st.run steps).recordsOf key <:+ st.recordsOf key ++ (st.inserted steps).filter (·.of key) := by
  induction steps generalizing st with
  | nil => simp [run, inserted]
  | cons s steps ih =>
    have hstep := recordsOf_step st s key
    rw [inserted, List.filter_append, ← List.append_assoc]
    exact (ih (st.step s)).trans (suffix_append_right hstep _)

/-- Whatever steps are made after a start of the service: an event that is added is stored as the
last one of its revision, and of the oldest events only so many are deleted as have to be; from
then on, as long as the revision is there, it stays within the limits and its budget is exact. The
loop always ends, and a call fails only if it is refused before the loop. What is kept of a
revision is always the last of all that it had and got. -/
theorem event_budget_kept (st : NumberedStore) (steps : List Step) :
    (∀ now e fuel, (st.startUp.run steps).events.rows.length < fuel →
      (∃ error, (st.startUp.run steps).Refused now e error ∧
        (st.startUp.run steps).appendDeploymentEvent fuel e now = some (.error error)) ∨
      ∃ e' key k st', (st.startUp.run steps).Stored now e e' ∧
        key = (e'.deploymentID, e'.revisionNumber) ∧
        (st.startUp.run steps).appendDeploymentEvent fuel e now = some (.ok st') ∧
        st'.recordsOf key = ((st.startUp.run steps).recordsOf key).drop k ++
          [⟨(st.startUp.run steps).events.lastID + 1, e'⟩] ∧
        (∀ j < k, maxDeploymentEvents ≤ (((st.startUp.run steps).recordsOf key).drop j).length ∨
          maxDeploymentEventBytes <
            bytesOf (((st.startUp.run steps).recordsOf key).drop j) + e'.message.length) ∧
        (∀ other ≠ key, st'.recordsOf other = (st.startUp.run steps).recordsOf other) ∧
        ∀ later, st'.Present key later → (st'.run later).Within key) ∧
    ∀ key, (st.startUp.run steps).recordsOf key <:+
      st.recordsOf key ++ (st.startUp.inserted steps).filter (·.of key) := by
  have hcounted : (st.startUp.run steps).Counted := (counted_startUp st).run steps
  refine ⟨fun now e fuel hfuel => ?_, fun key => recordsOf_run st.startUp steps key⟩
  generalize st.startUp.run steps = s at hcounted hfuel
  obtain ⟨error, hrefused, happend, -⟩ | ⟨e', r, -, hr, hcut, hfull, -, -⟩ |
      ⟨e', r, k, st', hstored, happends, happend, -⟩ := @appendDeploymentEvent_eq _ s e now hfuel
  · exact .inl ⟨error, hrefused, happend⟩
  · -- Without any event there would be room.
    have hnil := hfull _ (Nat.le_refl _)
    rw [hcounted.eventBudget hr, paid_budgetOf, List.drop_length, fits_nil hcut] at hnil
    cases hnil
  · refine .inr ⟨e', _, k, st', hstored, rfl, happend, ?_, ?_, ?_, ?_⟩
    · rw [recordsOf_addEvent happends, if_pos rfl]
    · intro j hj
      have hless := happends.least.least j hj
      rw [hcounted.eventBudget happends.found, paid_budgetOf] at hless
      rw [Bool.eq_false_iff, ne_eq, fits_iff, not_and_or, not_lt, not_le] at hless
      exact hless
    · intro other hother
      rw [recordsOf_addEvent happends, if_neg hother]
    · intro later hthere
      exact (happends.within hcounted).run (hcounted.appends happends) hthere

def firstRevision : Deployment where
  id := "d"
  accountID := 1
  scope := ⟨.account, 1⟩
  githubInstallationID := 1
  repositoryID := 1
  repositoryFullName := "o/r"
  revisionNumber := 1
  plan := {}
  expiresAt := 9

/-- The revision has one old event that was never counted. -/
def oneDeployment : NumberedStore where
  deployments := Table.empty.insert firstRevision
  revisions := Table.empty.insert (revisionRecordFromDeployment firstRevision 1)
  events := ⟨[⟨3, { deploymentID := "d", revisionNumber := 1, eventType := "log" }⟩], 3,
    List.pairwise_singleton _ _, by decide⟩

theorem event_budget_kept_one :
    ∃ st' key, oneDeployment.startUp.appendDeploymentEvent 2
        { deploymentID := " d", eventType := "log", message := [104, 105] } 5 = some (.ok st') ∧
      st'.Within key := by
  obtain ⟨happend, -⟩ := event_budget_kept oneDeployment []
  obtain ⟨error, -, hrefused⟩ | ⟨e', key, k, st', -, -, hok, -, -, -, hlater⟩ :=
    happend 5 { deploymentID := " d", eventType := "log", message := [104, 105] } 2 (by decide)
  · have hok : ((oneDeployment.startUp.run []).appendDeploymentEvent 2
        { deploymentID := " d", eventType := "log", message := [104, 105] } 5).any
          Except.toBool = true := by decide +kernel
    rw [hrefused] at hok
    cases hok
  · exact ⟨st', key, hok, hlater [] trivial⟩

end NumberedStore

end CiRunner.Deployments
