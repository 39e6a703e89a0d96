import CiRunner.Lifecycle.Alone
import Mathlib.Order.OrderIsoNat
import Mathlib.Data.Finset.Card

/-! The reconciliation of failed requests whose job has completed. A pass looks at the
fifty requests that were updated last. A request whose job is not known to have completed
keeps its place, so fifty of them can keep a request from being looked at for ever; fewer
cannot. -/

namespace CiRunner.Lifecycle

open Threads Tables CiRunner.State Text

/-! ### One request -/

/-- What GitHub answers to a lookup of a job. -/
abbrev Answers := String → Nat → Except Err WorkflowJob

/-- The choices with which lookups are answered so. The store works. -/
def Answers.allows (answers : Answers) : Call → Choice → Prop
  | .getWorkflowJob repository jobID, x =>
    (match x.err with | some e => .error e | none => .ok x.job) = answers repository jobID
  | _, x => x.fails = false

theorem Answers.storeWorks (answers : Answers) : StoreWorks answers.allows where
  read _ _ h := h
  write _ _ _ h := h

theorem Answers.exists_allows (answers : Answers) (c : Call) : ∃ x, answers.allows c x := by
  cases c with
  | getWorkflowJob repository jobID =>
    cases h : answers repository jobID with
    | error e => exact ⟨{ err := some e }, h.symm⟩
    | ok job => exact ⟨{ job }, h.symm⟩
  | _ => exact ⟨{}, rfl⟩

def Answers.completed (answers : Answers) (repository : String) (jobID : Nat) : Bool :=
  match answers repository jobID with
  | .ok job => equalFold (trimSpace job.status) "completed"
  | .error _ => false

/-- The job of the request is looked up and has completed. -/
def Answers.resolves (answers : Answers) (r : RunnerState) : Bool :=
  r.workflowJobID ≠ 0 && r.repositoryFullName ≠ "" && failedAfterJob r &&
    answers.completed r.repositoryFullName r.workflowJobID

variable {cfg : Settings} {i : Nat} {answers : Answers} {s : State} {r : RunnerState}

theorem status_written (st current : RunnerState) (now : Time) :
    (st.written current now).status = st.status := by
  simp only [RunnerState.written, RunnerState.applyStateTimestamps]
  split <;> simp_all

theorem completeObserved_spec (st : RunnerState) (job : WorkflowJob) (now : Time) :
    (completeObserved st job now).status = .completed ∧
      (completeObserved st job now).id = st.id ∧
      (completeObserved st job now).version = st.version := by
  unfold completeObserved
  dsimp only
  obtain ⟨result, hresult⟩ := retainWorkflowJobResult_eq
    { (clearLastError (clearFailure st)).clearLease with
      status := .completed, assignedJobID := 0, assignedJobName := "", nextRetryAt := 0 } job now
  rw [hresult]
  exact ⟨rfl, rfl, rfl⟩

theorem locks_restored {locks : String → Option Nat} {id : String} (h : locks id = none) :
    Function.update (Function.update locks id (some i)) id none = locks := by
  rw [Function.update_idem, ← h, Function.update_eq_self]

/-- A request is completed if its job has completed; otherwise nothing happens. -/
structure Reconciled (answers : Answers) (r : RunnerState) (s t : State) : Prop where
  locks : t.locks = s.locks
  completed : answers.resolves r = true →
    ∃ r', r'.status = .completed ∧ r'.id = r.id ∧ t.rows = s.rows.put r'
  kept : answers.resolves r = false → t = s

theorem reconciled_of_not (h : answers.resolves r = false) : Reconciled answers r s s :=
  ⟨rfl, fun h' => by simp [h] at h', fun _ => rfl⟩

theorem ends_completeIfWorkflowJobCompleted (hid : sanitizeID r.id = r.id) (hne : r.id ≠ "")
    (hlock : s.locks r.id = none) (hf : s.rows.find r.id = some r) :
    (machine cfg).Ends i answers.allows (fun _ t => Reconciled answers r s t)
      (completeIfWorkflowJobCompleted r.id) s := by
  unfold completeIfWorkflowJobCompleted
  refine (ends_withLock (Q := fun a t => a = some r ∧ t = s) hlock ?_).bind ?_
  · apply Machine.ends_call.mpr
    intro x hx
    refine ⟨some r, { s with locks := Function.update s.locks r.id (some i) }, ?_,
      Machine.ends_done.mpr ⟨Function.update_self .., rfl, ?_⟩⟩
    · show some (if x.fails then none else s.rows.find (sanitizeID r.id), _) = _
      rw [show x.fails = false from hx, hid, hf]
      rfl
    · dsimp only
      rw [locks_restored hlock]
  rintro _ t ⟨rfl, rfl⟩
  dsimp only
  split
  · rename_i hskip
    refine Machine.ends_done.mpr (reconciled_of_not ?_)
    rcases hskip with h | h | h <;> simp_all [Answers.resolves]
  rename_i hlook
  obtain ⟨hjob, hrepo, hfailed⟩ : r.workflowJobID ≠ 0 ∧ r.repositoryFullName ≠ "" ∧
      failedAfterJob r = true := by simpa [not_or] using hlook
  apply Machine.ends_ask.mpr
  intro x hx
  refine ⟨answers r.repositoryFullName r.workflowJobID, t, ?_, ?_⟩
  · exact congrArg (fun answer => some (answer, t)) hx
  have hresolves : answers.resolves r =
      answers.completed r.repositoryFullName r.workflowJobID := by
    simp [Answers.resolves, hjob, hrepo, hfailed]
  cases hanswer : answers r.repositoryFullName r.workflowJobID with
  | error e =>
    refine Machine.ends_done.mpr (reconciled_of_not ?_)
    rw [hresolves, Answers.completed, hanswer]
  | ok job =>
    rw [Answers.completed, hanswer] at hresolves
    dsimp only at hresolves ⊢
    split
    · rename_i hrunning
      refine Machine.ends_done.mpr (reconciled_of_not ?_)
      rw [hresolves]
      simpa using hrunning
    · rename_i hdone
      have hheld : Holding i r.id r { t with locks := Function.update t.locks r.id (some i) } :=
        ⟨Function.update_self .., by rw [hid]; exact hf, by rw [hid]; exact hne⟩
      apply ends_withLock hlock
      apply ends_readState answers.storeWorks hheld
      simp only [hfailed, ne_eq, not_true_eq_false, Bool.not_true, Bool.false_eq_true, or_self,
        if_false]
      apply ends_now
      intro now
      obtain ⟨hstatus, hid', hversion⟩ := completeObserved_spec r job now
      generalize completeObserved r job now = fin at hstatus hid' hversion
      have hid'' : sanitizeID fin.id = sanitizeID r.id := by rw [hid']
      have hrows := hheld.rows_writeState hid'' hversion
      apply Machine.ends_ask.mpr
      intro y hy
      have hserve : serve cfg i (.writeState .completeObserved fin) y
          { t with locks := Function.update t.locks r.id (some i) } =
          some ((t.rows.put (fin.written r y.now)).find (sanitizeID fin.id),
            { t with
              locks := Function.update t.locks r.id (some i)
              rows := t.rows.put (fin.written r y.now) }) := by
        simp only [serve, show y.fails = false from hy, State.writeState, hrows y.now]
        rfl
      refine ⟨_, _, hserve, Machine.ends_done.mpr ?_⟩
      refine ⟨Function.update_self .., ?_, fun _ => ⟨fin.written r y.now, ?_, ?_, rfl⟩, ?_⟩
      · exact locks_restored hlock
      · rw [status_written, hstatus]
      · exact RunnerState.id_written ..
      · intro hnot
        rw [hresolves] at hnot
        simp [hnot] at hdone

theorem Reconciled.find_of_ne {t : State} (h : Reconciled answers r s t) {k : String}
    (hk : r.id ≠ k) : t.rows.find k = s.rows.find k := by
  cases hres : answers.resolves r with
  | true =>
    obtain ⟨r', -, hid, hrows⟩ := h.completed hres
    rw [hrows, Table.find_put_of_ne (by rw [hid]; exact hk)]
  | false => rw [h.kept hres]

theorem Reconciled.find_self {t : State} (h : Reconciled answers r s t)
    (hf : s.rows.find r.id = some r) (hres : answers.resolves r = true) :
    ∃ r', t.rows.find r.id = some r' ∧ r'.status = .completed := by
  obtain ⟨r', hstatus, hid, hrows⟩ := h.completed hres
  refine ⟨r', ?_, hstatus⟩
  rw [hrows, ← hid]
  exact Table.find_put_self (u := r) (by rw [hid]; exact hf)

/-! ### One pass -/

/-- Of the listed requests those whose job has completed are completed, and nothing else happens. -/
structure Swept (answers : Answers) (listed : List RunnerState) (s t : State) : Prop where
  locks : t.locks = s.locks
  completed : ∀ r ∈ listed, answers.resolves r = true →
    ∃ r', t.rows.find r.id = some r' ∧ r'.status = .completed
  kept : ∀ k, (∀ r ∈ listed, r.id = k → answers.resolves r = false) →
    t.rows.find k = s.rows.find k
  same : (∀ r ∈ listed, answers.resolves r = false) → t = s

/-- The rows are as the store has them: no two of them share an id, and ids are sanitized. -/
structure Listed (s : State) (listed : List RunnerState) : Prop where
  ids : ∀ r ∈ listed, sanitizeID r.id = r.id ∧ r.id ≠ ""
  rows : ∀ r ∈ listed, s.rows.find r.id = some r
  nodup : (listed.map RunnerState.id).Nodup

theorem ends_forEach (listed : List RunnerState) (h : Listed s listed)
    (hfree : ∀ k, s.locks k = none) :
    (machine cfg).Ends i answers.allows (fun _ t => Swept answers listed s t)
      (forEach (fun st => completeIfWorkflowJobCompleted st.id) listed) s := by
  induction listed generalizing s with
  | nil =>
    refine Machine.ends_done.mpr ⟨rfl, fun r hr => ?_, fun _ _ => rfl, fun _ => rfl⟩
    cases hr
  | cons r listed ih =>
    obtain ⟨hnotin, hnodup⟩ := List.nodup_cons.mp h.nodup
    have hne : ∀ e ∈ listed, r.id ≠ e.id := fun e he heq =>
      hnotin (heq ▸ List.mem_map_of_mem he)
    obtain ⟨hid, hempty⟩ := h.ids r List.mem_cons_self
    refine (ends_completeIfWorkflowJobCompleted hid hempty (hfree r.id)
      (h.rows r List.mem_cons_self)).bind ?_
    intro _ t ht
    have hrest : Listed t listed :=
      ⟨fun e he => h.ids e (List.mem_cons_of_mem _ he),
        fun e he => (ht.find_of_ne (hne e he)).trans (h.rows e (List.mem_cons_of_mem _ he)),
        hnodup⟩
    refine (ih hrest fun k => by rw [ht.locks]; exact hfree k).mono ?_
    intro _ u hu
    refine ⟨hu.locks.trans ht.locks, ?_, ?_, ?_⟩
    · intro e he hres
      rcases List.mem_cons.mp he with rfl | he
      · obtain ⟨r', hf', hstatus⟩ := ht.find_self (h.rows e List.mem_cons_self) hres
        have hkept := hu.kept e.id fun e' he' heq => absurd heq.symm (hne e' he')
        exact ⟨r', hkept.trans hf', hstatus⟩
      · exact hu.completed e he hres
    · intro k hk
      rw [hu.kept k fun e he => hk e (List.mem_cons_of_mem _ he)]
      by_cases hrk : r.id = k
      · rw [ht.kept (hk r List.mem_cons_self hrk)]
      · exact ht.find_of_ne hrk
    · intro hnone
      rw [hu.same fun e he => hnone e (List.mem_cons_of_mem _ he),
        ht.kept (hnone r List.mem_cons_self)]

/-- Every row has the id under which it is looked up. -/
structure Stored (rows : Requests) : Prop where
  key : ∀ {k r}, rows.find k = some r → sanitizeID k = k ∧ k ≠ ""

theorem mem_listFailed {rows : Requests} {ties : String → Nat} {limit : Nat}
    (h : r ∈ rows.listFailedWorkflowJobStates ties limit) :
    rows.find r.id = some r ∧ Requests.failedWorkflowJob r = true := by
  obtain ⟨hmem, hfailed⟩ := mem_ordered.mp (List.mem_of_mem_take h)
  exact ⟨Table.find_of_mem hmem, hfailed⟩

theorem nodup_listFailed (rows : Requests) (ties : String → Nat) (limit : Nat) :
    ((rows.listFailedWorkflowJobStates ties limit).map RunnerState.id).Nodup := by
  have hperm := (List.perm_insertionSort
    (fun a b => Requests.latestFirst RunnerState.updatedAt ties a ≤
      Requests.latestFirst RunnerState.updatedAt ties b)
    (rows.rows.filter Requests.failedWorkflowJob)).map RunnerState.id
  have hall := hperm.nodup_iff.mpr (rows.nodup.sublist (List.filter_sublist.map _))
  exact hall.sublist ((List.take_sublist ..).map _)

theorem Stored.listed (h : Stored s.rows) (ties : String → Nat) (limit : Nat) :
    Listed s (s.rows.listFailedWorkflowJobStates ties limit) where
  ids _ hr := h.key (mem_listFailed hr).1
  rows _ hr := (mem_listFailed hr).1
  nodup := nodup_listFailed s.rows ties limit

theorem ends_reconcileCompletedWorkflowJobs (hstored : Stored s.rows)
    (hfree : ∀ k, s.locks k = none) :
    (machine cfg).Ends i answers.allows (fun _ t => ∃ ties,
      Swept answers (s.rows.listFailedWorkflowJobStates ties 50) s t)
      reconcileCompletedWorkflowJobs s := by
  apply Machine.ends_ask.mpr
  intro x hx
  refine ⟨s.rows.listFailedWorkflowJobStates x.ties 50, s, ?_, ?_⟩
  · show some (if x.fails then [] else s.rows.listFailedWorkflowJobStates x.ties 50, s) = _
    rw [show x.fails = false from hx]
    rfl
  · exact (ends_forEach _ (hstored.listed x.ties 50) hfree).mono fun _ t ht => ⟨x.ties, ht⟩

/-! ### Pass after pass -/

/-- Passes one after another, with nothing else going on. The answers of GitHub may differ from
pass to pass. -/
structure Passes (cfg : Settings) (i : Nat) (answers : Nat → Answers) (states : Nat → State) :
    Prop where
  stored : Stored (states 0).rows
  free : ∀ k, (states 0).locks k = none
  pass : ∀ n, (machine cfg).Runs i (answers n).allows reconcileCompletedWorkflowJobs (states n) ()
    (states (n + 1))

namespace Passes

variable {answers : Nat → Answers} {states : Nat → State}

theorem stored_of_swept {answers : Answers} {listed : List RunnerState} {t : State}
    (hlisted : Listed s listed) (h : Swept answers listed s t) (hs : Stored s.rows) :
    Stored t.rows := by
  constructor
  intro k r hf
  by_cases hk : ∀ e ∈ listed, e.id = k → answers.resolves e = false
  · rw [h.kept k hk] at hf
    exact hs.key hf
  · push Not at hk
    obtain ⟨e, he, rfl, -⟩ := hk
    exact hs.key (hlisted.rows e he)

theorem swept_of_ends {t : State} {answers : Answers} (hs : Stored s.rows)
    (hfree : ∀ k, s.locks k = none)
    (hrun : (machine cfg).Runs i answers.allows reconcileCompletedWorkflowJobs s () t) :
    ∃ ties, Swept answers (s.rows.listFailedWorkflowJobStates ties 50) s t :=
  (ends_reconcileCompletedWorkflowJobs hs hfree).of_runs hrun

theorem stored_free (h : Passes cfg i answers states) (n : Nat) :
    Stored (states n).rows ∧ ∀ k, (states n).locks k = none := by
  induction n with
  | zero => exact ⟨h.stored, h.free⟩
  | succ n ih =>
    obtain ⟨ties, hswept⟩ := swept_of_ends ih.1 ih.2 (h.pass n)
    refine ⟨stored_of_swept (ih.1.listed ties 50) hswept ih.1, fun k => ?_⟩
    rw [hswept.locks]
    exact ih.2 k

theorem swept (h : Passes cfg i answers states) (n : Nat) :
    ∃ ties, Swept (answers n) ((states n).rows.listFailedWorkflowJobStates ties 50) (states n)
      (states (n + 1)) :=
  swept_of_ends (h.stored_free n).1 (h.stored_free n).2 (h.pass n)

theorem find_of_not_completed (h : Passes cfg i answers states) {n : Nat} {k : String}
    (hf : (states (n + 1)).rows.find k = some r) (hr : r.status ≠ .completed) :
    (states n).rows.find k = some r := by
  obtain ⟨ties, hswept⟩ := h.swept n
  by_cases hk : ∀ e ∈ (states n).rows.listFailedWorkflowJobStates ties 50, e.id = k →
      (answers n).resolves e = false
  · rwa [← hswept.kept k hk]
  · push Not at hk
    obtain ⟨e, he, rfl, hres⟩ := hk
    obtain ⟨r', hf', hstatus⟩ := hswept.completed e he (by simpa using hres)
    rw [hf'] at hf
    cases hf
    exact absurd hstatus hr

theorem find_succ (h : Passes cfg i answers states) {n : Nat} {k : String}
    (hf : (states n).rows.find k = some r) :
    (states (n + 1)).rows.find k = some r ∨
      ∃ r', (states (n + 1)).rows.find k = some r' ∧ r'.status = .completed := by
  obtain ⟨ties, hswept⟩ := h.swept n
  by_cases hk : ∀ e ∈ (states n).rows.listFailedWorkflowJobStates ties 50, e.id = k →
      (answers n).resolves e = false
  · exact .inl ((hswept.kept k hk).trans hf)
  · push Not at hk
    obtain ⟨e, he, rfl, hres⟩ := hk
    exact .inr (hswept.completed e he (by simpa using hres))

/-- The other failed requests that come before one of the given time in the order of a pass. -/
def ahead (rows : Requests) (e : RunnerState) : Finset String :=
  ((rows.rows.filter fun r => Requests.failedWorkflowJob r && e.updatedAt ≤ r.updatedAt &&
    r.id ≠ e.id).map RunnerState.id).toFinset

theorem mem_ahead {rows : Requests} {e : RunnerState} {k : String} :
    k ∈ ahead rows e ↔ k ≠ e.id ∧ ∃ r, rows.find k = some r ∧
      Requests.failedWorkflowJob r = true ∧ e.updatedAt ≤ r.updatedAt := by
  simp only [ahead, List.mem_toFinset, List.mem_map, List.mem_filter, Bool.and_eq_true,
    decide_eq_true_eq]
  constructor
  · rintro ⟨r, ⟨hmem, ⟨hfailed, hle⟩, hne⟩, rfl⟩
    exact ⟨hne, r, Table.find_of_mem hmem, hfailed, hle⟩
  · rintro ⟨hne, r, hf, hfailed, hle⟩
    have hid : r.id = k := Table.key_of_find hf
    exact ⟨r, ⟨Table.mem_of_find hf, ⟨hfailed, hle⟩, by rw [hid]; exact hne⟩, hid⟩

theorem failed_of_failedWorkflowJob (h : Requests.failedWorkflowJob r = true) :
    r.status = .failed ∧ r.workflowJobID ≠ 0 ∧ failedAfterJob r = true := by
  simp only [Requests.failedWorkflowJob, Bool.and_eq_true, Bool.or_eq_true,
    decide_eq_true_eq] at h
  obtain ⟨⟨hstatus, hjob⟩, hstage⟩ := h
  exact ⟨hstatus, hjob, by simp [failedAfterJob, hstatus, hstage]⟩

theorem antitone_ahead (h : Passes cfg i answers states) (e : RunnerState) :
    Antitone fun n => ahead (states n).rows e := by
  refine antitone_nat_of_succ_le fun n k hk => ?_
  obtain ⟨hne, r, hf, hfailed, hle⟩ := mem_ahead.mp hk
  have hnot : r.status ≠ .completed := by simp [(failed_of_failedWorkflowJob hfailed).1]
  exact mem_ahead.mpr ⟨hne, r, h.find_of_not_completed hf hnot, hfailed, hle⟩

/-- A pass that does not list the request lists fifty others that come before it. -/
theorem le_card_ahead {rows : Requests} {e : RunnerState} {ties : String → Nat}
    (hf : rows.find e.id = some e) (hfailed : Requests.failedWorkflowJob e = true)
    (hnot : e ∉ rows.listFailedWorkflowJobStates ties 50) : 50 ≤ (ahead rows e).card := by
  have hmem : e ∈ ordered (Requests.latestFirst RunnerState.updatedAt ties) rows.rows
      Requests.failedWorkflowJob := mem_ordered.mpr ⟨Table.mem_of_find hf, hfailed⟩
  obtain ⟨hlength, hle⟩ := le_of_not_mem_take (List.pairwise_insertionSort _ _) hmem hnot
  have hsub : ((rows.listFailedWorkflowJobStates ties 50).map RunnerState.id).toFinset ⊆
      ahead rows e := by
    intro k hk
    obtain ⟨r, hr, rfl⟩ := List.mem_map.mp (List.mem_toFinset.mp hk)
    obtain ⟨hfr, hfailedr⟩ := mem_listFailed hr
    refine mem_ahead.mpr ⟨?_, r, hfr, hfailedr, ?_⟩
    · intro heq
      rw [heq, hf] at hfr
      cases hfr
      exact hnot hr
    · have horder := hle r hr
      rw [Requests.latestFirst, Requests.latestFirst, Prod.Lex.toLex_le_toLex] at horder
      rcases horder with hlt | ⟨heq, -⟩
      · exact le_of_lt hlt
      · exact le_of_eq heq.symm
  calc 50 = ((rows.listFailedWorkflowJobStates ties 50).map RunnerState.id).toFinset.card := by
        rw [List.toFinset_card_of_nodup (nodup_listFailed rows ties 50), List.length_map]
        exact hlength.symm
    _ ≤ (ahead rows e).card := Finset.card_le_card hsub

/-- The failed request keeps its row until it is completed. -/
theorem find_of_never {e : RunnerState} (h : Passes cfg i answers states) {id : String}
    (hf : (states 0).rows.find id = some e)
    (hnever : ∀ n r, (states n).rows.find id = some r → r.status ≠ .completed) (n : Nat) :
    (states n).rows.find id = some e := by
  induction n with
  | zero => exact hf
  | succ n ih =>
    rcases h.find_succ ih with hf | ⟨r, hf, hstatus⟩
    · exact hf
    · exact absurd hstatus (hnever (n + 1) r hf)

end Passes

/-- Pass can follow pass for ever. -/
theorem exists_passes (answers : Nat → Answers) (hs : Stored s.rows)
    (hfree : ∀ k, s.locks k = none) : ∃ states, states 0 = s ∧ Passes cfg i answers states := by
  have hstep : ∀ (n : Nat) (s : { s : State // Stored s.rows ∧ ∀ k, s.locks k = none }),
      ∃ t : { s : State // Stored s.rows ∧ ∀ k, s.locks k = none },
        (machine cfg).Runs i (answers n).allows reconcileCompletedWorkflowJobs s.1 () t.1 := by
    rintro n ⟨s, hs, hfree⟩
    obtain ⟨⟨⟩, t, hrun, ties, ht⟩ := (ends_reconcileCompletedWorkflowJobs hs hfree).exists_runs
      (answers n).exists_allows
    refine ⟨⟨t, Passes.stored_of_swept (hs.listed ties 50) ht hs, ?_⟩, hrun⟩
    rw [ht.locks]
    exact hfree
  choose next hnext using hstep
  exact ⟨fun n => (Nat.rec ⟨s, hs, hfree⟩ next n : { s : State // _ }).1, rfl, hs, hfree,
    fun n => hnext n _⟩

/-- Requests whose clean-up has failed, one after another. -/
def failedRow (k : Nat) : RunnerState where
  id := toString k
  status := .failed
  repositoryFullName := "o/r"
  workflowJobID := k + 1
  failureStage := some .cleanup
  updatedAt := k + 1

/-- The job of the first request has completed; no other is found. -/
def firstCompleted : Answers := fun _ jobID =>
  if jobID = 1 then .ok { id := 1, status := "completed" } else .error (.message "status 404")

theorem stored_of_forall {rows : Requests}
    (h : ∀ r ∈ rows.rows, sanitizeID r.id = r.id ∧ r.id ≠ "") : Stored rows where
  key hf := by
    rw [← Table.key_of_find hf]
    exact h _ (Table.mem_of_find hf)

/-- A pass in which no listed job has completed changes nothing. -/
theorem runs_of_unresolved {answers : Answers} (hs : Stored s.rows)
    (hfree : ∀ k, s.locks k = none)
    (h : ∀ r ∈ s.rows.listFailedWorkflowJobStates (fun _ => 0) 50, answers.resolves r = false) :
    (machine cfg).Runs i answers.allows reconcileCompletedWorkflowJobs s () s := by
  refine Machine.runs_ask.mpr ⟨{}, _, s, rfl, rfl, ?_⟩
  obtain ⟨⟨⟩, t, hrun, ht⟩ := (ends_forEach _ (hs.listed (fun _ => 0) 50) hfree).exists_runs
    answers.exists_allows
  rw [ht.same h] at hrun
  exact hrun

def failedRows : Requests := ⟨(List.range 51).map failedRow, by decide +kernel⟩

end CiRunner.Lifecycle
