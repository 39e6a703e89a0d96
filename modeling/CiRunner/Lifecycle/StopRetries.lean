import CiRunner.Lifecycle.Alone

/-! Stops that are tried again. A stop of a running request may fail to stop the
sandbox or to remove the runner from GitHub, and is then tried again later. What
is left in the row of a failed removal does not show in the end; a sandbox that
was not stopped at once makes the request a failed one. -/

namespace CiRunner.Lifecycle

open Threads Tables CiRunner.State Text

/-! ### Calls of a stop and how they come out -/

/-- What becomes of the two remote requests of a stop. -/
inductive StopOutcome where
  | sandboxFails (err : Err)
  | cleanupFails (err : Err)
  | succeeds

/-- The choices with which a stop comes out so. The store works. -/
def StopOutcome.allows : StopOutcome → Call → Choice → Prop
  | .sandboxFails err, .stopSandbox _, x => x.err = some err
  | _, .stopSandbox _, x => ∀ err, x.err = some err → isSandboxGone err = true
  | .cleanupFails err, .remote .removeRunner, x => x.err = some err
  | .succeeds, .remote .removeRunner, x => x.err = none
  | _, _, x => x.fails = false

/-- Errors as the clients of the sandbox service and of GitHub return them. -/
def Err.plain : Err → Bool
  | .message _ | .deadlineExceeded _ => true
  | _ => false

/-- The failure is one after which the stop is tried again. -/
def StopOutcome.Retryable : StopOutcome → Prop
  | .sandboxFails err => err.plain = true ∧ isSandboxGone err = false ∧
    (classifyRetryableError "stop" err).2 = true
  | .cleanupFails err => err.plain = true ∧ (classifyRetryableError "github_cleanup" err).2 = true
  | .succeeds => False

structure StopCall where
  job : WorkflowJob
  source : TerminationSource
  outcome : StopOutcome

/-- Between two stops of a request anything may happen to other requests. -/
def Between (id : String) (s s' : State) : Prop :=
  s'.rows.find (sanitizeID id) = s.rows.find (sanitizeID id) ∧ s'.locks id = s.locks id

variable (cfg : Settings) (i : Nat) (id : String)

/-- The stops are made one after another, each comes to its end, and what they leave is in `Q`. -/
def Stops (Q : State → Prop) : List StopCall → State → Prop
  | [], s => Q s
  | call :: calls, s =>
    (machine cfg).Ends i call.outcome.allows (fun _ t => ∀ t', Between id t t' → Stops Q calls t')
      (stopRunner cfg id call.job call.source) s

/-- The request has ended well, and nothing is left of any failure. -/
structure EndedWell (r : RunnerState) : Prop where
  status : r.status = .completed
  stage : r.failureStage = none
  reason : r.failureReason = ""
  error : r.error = ""

variable {cfg i id} {allowed : Call → Choice → Prop}

/-! ### What a stop can rely on -/

theorem StopOutcome.storeWorks (outcome : StopOutcome) : StoreWorks outcome.allows where
  read _ _ h := by cases outcome <;> exact h
  write _ _ _ h := by cases outcome <;> exact h

/-! ### What a stop finds and leaves -/

structure Outcome where
  status : Status
  stage : Option Stage
  reason : String
  error : String
  retries : Nat
  assigned : Nat

def outcomeOf (r : RunnerState) : Outcome :=
  ⟨r.status, r.failureStage, r.failureReason, r.error, r.retryCount, r.assignedJobID⟩

@[simp] theorem outcomeOf_written (st r : RunnerState) (now : Time) :
    outcomeOf (st.written r now) = outcomeOf st := by
  simp only [outcomeOf, RunnerState.written, RunnerState.applyStateTimestamps]
  split <;> simp_all

/-- Nothing but a removal from GitHub has failed so far. -/
structure OnlyCleanup (r : RunnerState) : Prop where
  stage : r.failureStage = none ∨ r.failureStage = some .cleanup
  reason : r.failureReason ≠ "jit_cleanup_pending"

/-- The stop of the request is still to be completed. -/
structure ToStop (n : Nat) (r : RunnerState) : Prop extends OnlyCleanup r where
  status : r.status = .running ∨ r.status = .stopping
  retries : r.retryCount = n

theorem code_ne_jit {stage : String} {err : Err} (hplain : err.plain = true)
    (hretry : (classifyRetryableError stage err).2 = true) :
    (classifyRetryableError stage err).1 ≠ "jit_cleanup_pending" := by
  cases err with
  | deadlineExceeded => simp [classifyRetryableError]
  | message text =>
    revert hretry
    simp only [classifyRetryableError]
    repeat' split
    all_goals simp
  | _ => cases hplain

/-- The copy of a row that is held by the thread: it is written over the row as it is. -/
structure Copies (id : String) (r st : RunnerState) : Prop where
  id_eq : sanitizeID st.id = sanitizeID id
  version : st.version = r.version
  job : st.workflowJobID = r.workflowJobID

theorem Copies.written {r st : RunnerState} {now : Time} (h : Copies id r st) :
    Copies id (st.written r now) (nextVersion st) where
  id_eq := h.id_eq
  version := (RunnerState.version_written st r now).symm
  job := h.job

theorem scheduleCleanupRetry_spec {st : RunnerState} {err : Err} (now : Time)
    (hplain : err.plain = true) (hretry : (classifyRetryableError "github_cleanup" err).2 = true)
    (hcount : st.retryCount < cfg.retryMaxAttempts) (hst : OnlyCleanup st) :
    ∃ next, scheduleCleanupRetry cfg st err now = some next ∧ next.id = st.id ∧
      next.version = st.version ∧ next.workflowJobID = st.workflowJobID ∧
      next.assignedJobID = st.assignedJobID ∧ ToStop (st.retryCount + 1) next := by
  have hcode := code_ne_jit hplain hretry
  have hmax : ¬ cfg.retryMaxAttempts ≤ st.retryCount := by omega
  simp only [scheduleCleanupRetry, hretry, Bool.not_true, Bool.false_eq_true, if_false, hmax,
    decide_false, Bool.and_false, hcount, if_true]
  refine ⟨_, rfl, ?_⟩
  rcases hst.stage with hs | hs
  · rw [if_pos hs]
    exact ⟨rfl, rfl, rfl, rfl, ⟨⟨.inr rfl, hcode⟩, .inr rfl, rfl⟩⟩
  · have hne : st.failureStage ≠ none := by simp [hs]
    rw [if_neg hne]
    exact ⟨rfl, rfl, rfl, rfl, ⟨⟨.inr hs, hst.reason⟩, .inr rfl, rfl⟩⟩

theorem finishStop_spec {st : RunnerState} (hst : OnlyCleanup st) (now : Time) :
    EndedWell (finishStop st now) ∧ (finishStop st now).assignedJobID = st.assignedJobID ∧
    (finishStop st now).id = st.id ∧ (finishStop st now).version = st.version := by
  have hstage : ¬ (st.failureStage ≠ none ∧ st.failureStage ≠ some .cleanup) := by
    rcases hst.stage with hs | hs <;> simp [hs]
  simp only [finishStop, if_neg hstage]
  exact ⟨⟨rfl, rfl, rfl, rfl⟩, rfl, rfl, rfl⟩

theorem EndedWell.of_outcome {r r' : RunnerState} (h : EndedWell r)
    (he : outcomeOf r' = outcomeOf r) : EndedWell r' where
  status := (congrArg Outcome.status he).trans h.status
  stage := (congrArg Outcome.stage he).trans h.stage
  reason := (congrArg Outcome.reason he).trans h.reason
  error := (congrArg Outcome.error he).trans h.error

theorem ToStop.of_outcome {n : Nat} {r r' : RunnerState} (h : ToStop n r)
    (he : outcomeOf r' = outcomeOf r) : ToStop n r' where
  stage := by
    rw [show r'.failureStage = r.failureStage from congrArg Outcome.stage he]
    exact h.stage
  reason := by
    rw [show r'.failureReason = r.failureReason from congrArg Outcome.reason he]
    exact h.reason
  status := by
    rw [show r'.status = r.status from congrArg Outcome.status he]
    exact h.status
  retries := (congrArg Outcome.retries he).trans h.retries

/-- What a stop leaves: the request has ended well, or the removal `e` of its runner has failed
and is tried again. -/
def Left (e : Option Err) (job assigned n : Nat) (r : RunnerState) : Prop :=
  r.workflowJobID = job ∧ r.assignedJobID = assigned ∧ (EndedWell r ∨ e.isSome ∧ ToStop (n + 1) r)

theorem left_written {e : Option Err} {assigned n : Nat} {r fin : RunnerState} {now : Time}
    (hassigned : fin.assignedJobID = assigned) (h : EndedWell fin ∨ e.isSome ∧ ToStop (n + 1) fin) :
    Left e r.workflowJobID assigned n (fin.written r now) := by
  have he : outcomeOf (fin.written r now) = outcomeOf fin := outcomeOf_written fin r now
  have hsame : (fin.written r now).assignedJobID = fin.assignedJobID :=
    congrArg Outcome.assigned he
  refine ⟨rfl, hsame.trans hassigned, ?_⟩
  rcases h with h | ⟨hsome, h⟩
  · exact .inl (h.of_outcome he)
  · exact .inr ⟨hsome, h.of_outcome he⟩

section Programs

variable {s : State} {r st : RunnerState} {job : WorkflowJob} {e : Option Err}

theorem ends_finishStopRunner (hw : StoreWorks allowed) (hs : Holding i id r s)
    (hc : Copies id r st) (hst : OnlyCleanup st) (n : Nat) :
    (machine cfg).Ends i allowed (fun _ u => ∃ r', Holding i id r' u ∧
      Left e r.workflowJobID st.assignedJobID n r') (finishStopRunner st) s := by
  unfold finishStopRunner
  apply ends_now
  intro now
  obtain ⟨hended, hassigned, hid, hversion⟩ := finishStop_spec hst now
  generalize finishStop st now = fin at hended hassigned hid hversion ⊢
  apply ends_writeState hw hs (by rw [hid]; exact hc.id_eq) (hversion.trans hc.version)
  intro at' t ht
  exact Machine.ends_done.mpr ⟨_, ht, left_written hassigned (.inl hended)⟩

theorem ends_cleanupStoppedRunner (hw : StoreWorks allowed)
    (hremove : ∀ x, allowed (.remote .removeRunner) x → x.err = e)
    (hretry : ∀ err, e = some err → err.plain = true ∧
      (classifyRetryableError "github_cleanup" err).2 = true ∧
      st.retryCount < cfg.retryMaxAttempts)
    (hs : Holding i id r s) (hc : Copies id r st) (hst : OnlyCleanup st)
    (hown : workflowJobMismatch st job = false) :
    (machine cfg).Ends i allowed (fun _ u => ∃ r', Holding i id r' u ∧
      Left e r.workflowJobID st.assignedJobID st.retryCount r')
      (cleanupStoppedRunner cfg st job) s := by
  have hdone : (machine cfg).Ends i allowed (fun _ u => ∃ r', Holding i id r' u ∧
      Left e r.workflowJobID st.assignedJobID st.retryCount r')
      (if workflowJobMismatch st job then finishMismatched st
        else if st.failureReason = "jit_cleanup_pending" then finishJITCleanup st
        else finishStopRunner st) s := by
    simp only [hown, Bool.false_eq_true, if_false, hst.reason]
    exact ends_finishStopRunner hw hs hc hst st.retryCount
  unfold cleanupStoppedRunner cleanupGitHubRunner
  split
  · exact hdone
  · apply Machine.ends_call.mpr
    intro x hx
    refine ⟨x.err, s, rfl, ?_⟩
    rw [hremove x hx]
    rcases e with _ | err
    · exact hdone
    · obtain ⟨hplain, hretryable, hcount⟩ := hretry err rfl
      apply ends_now
      intro now
      obtain ⟨next, hnext, hid, hversion, -, hassigned, hleft⟩ :=
        scheduleCleanupRetry_spec now hplain hretryable hcount hst
      rw [hnext]
      apply ends_writeState hw hs (by rw [hid]; exact hc.id_eq) (hversion.trans hc.version)
      intro at' t ht
      exact Machine.ends_done.mpr ⟨_, ht, left_written hassigned (.inr ⟨rfl, hleft⟩)⟩

theorem ends_stopSandboxOf
    (hstop : ∀ sandboxID x, allowed (.stopSandbox sandboxID) x →
      ∀ err, x.err = some err → isSandboxGone err = true) (hs : Holding i id r s) :
    (machine cfg).Ends i allowed (fun a u => a = none ∧ Holding i id r u) (stopSandboxOf st) s := by
  unfold stopSandboxOf stopSandbox
  split
  · exact Machine.ends_done.mpr ⟨rfl, hs⟩
  · apply Machine.ends_ask.mpr
    intro x hx
    rcases he : x.err with _ | err
    · refine ⟨none, { s with stopped := st.sandboxID :: s.stopped }, ?_, ?_⟩
      · show some (s.stopSandbox st.sandboxID x.err) = _
        rw [he]
        rfl
      · exact Machine.ends_done.mpr ⟨rfl, ⟨hs.lock, hs.row, hs.key⟩⟩
    · have hgone := hstop _ x hx err he
      refine ⟨some err, { s with stopped := st.sandboxID :: s.stopped }, ?_, ?_⟩
      · show some (s.stopSandbox st.sandboxID x.err) = _
        rw [he]
        simp [State.stopSandbox, hgone]
      · simp only [hgone, if_true]
        exact Machine.ends_done.mpr ⟨rfl, ⟨hs.lock, hs.row, hs.key⟩⟩

theorem ends_finishStopping (hw : StoreWorks allowed)
    (hstop : ∀ sandboxID x, allowed (.stopSandbox sandboxID) x →
      ∀ err, x.err = some err → isSandboxGone err = true)
    (hremove : ∀ x, allowed (.remote .removeRunner) x → x.err = e)
    (hretry : ∀ err, e = some err → err.plain = true ∧
      (classifyRetryableError "github_cleanup" err).2 = true ∧
      st.retryCount < cfg.retryMaxAttempts)
    (hs : Holding i id r s) (hc : Copies id r st) (hst : OnlyCleanup st)
    (hown : workflowJobMismatch st job = false) :
    (machine cfg).Ends i allowed (fun _ u => ∃ r', Holding i id r' u ∧
      Left e r.workflowJobID st.assignedJobID st.retryCount r') (finishStopping cfg st job) s := by
  apply (ends_stopSandboxOf hstop hs).bind
  rintro a u ⟨rfl, hu⟩
  exact ends_cleanupStoppedRunner hw hremove hretry hu hc hst hown

theorem recordAssignedJob_eq (r : RunnerState) (job : WorkflowJob) :
    ∃ n name, recordAssignedJob r job = { r with assignedJobID := n, assignedJobName := name } ∧
      (job.id = 0 → n = r.assignedJobID) ∧ (job.id ≠ 0 → n = job.id) := by
  unfold recordAssignedJob
  split
  · rename_i h
    simp only [shouldRecordAssignedJob, Bool.and_eq_true, decide_eq_true_eq] at h
    exact ⟨job.id, job.name, rfl, fun h0 => absurd h0 h.1, fun _ => rfl⟩
  · rename_i h
    simp only [shouldRecordAssignedJob, Bool.and_eq_true, Bool.or_eq_true, decide_eq_true_eq,
      not_and, not_or, not_not] at h
    exact ⟨r.assignedJobID, r.assignedJobName, rfl, fun _ => rfl, fun h0 => (h h0).1⟩

/-- The row that a stop finds: the request has ended well, or is to be stopped after `n` retries. -/
def Found (n : Nat) (r : RunnerState) : Prop := EndedWell r ∨ ToStop n r

theorem recordAssignedJob_jobResult (r : RunnerState) (job : WorkflowJob) (result : JobResult) :
    recordAssignedJob { r with jobResult := result } job =
      { recordAssignedJob r job with jobResult := result } := by
  have h : shouldRecordAssignedJob { r with jobResult := result } job =
      shouldRecordAssignedJob r job := rfl
  unfold recordAssignedJob
  rw [h]
  split <;> rfl

theorem beginStop_spec {n : Nat} (job : WorkflowJob) (hr : ToStop n r) (result : JobResult)
    (source : TerminationSource) (now : Time) :
    ∃ st, markRunnerCleanupStarted (setTerminationSource
        (recordAssignedJob { r with jobResult := result } job) source) now = st ∧
      st.id = r.id ∧ st.version = r.version ∧ st.workflowJobID = r.workflowJobID ∧
      st.assignedJobID = (recordAssignedJob r job).assignedJobID ∧ st.retryCount = n ∧
      OnlyCleanup st := by
  obtain ⟨assigned, name, hrecord, -⟩ := recordAssignedJob_eq r job
  refine ⟨_, rfl, ?_⟩
  rw [recordAssignedJob_jobResult, hrecord]
  unfold setTerminationSource
  split <;> exact ⟨rfl, rfl, rfl, rfl, hr.retries, hr.stage, hr.reason⟩

theorem recordCompleted_spec (job : WorkflowJob) (hr : EndedWell r) (result : JobResult) :
    ∃ st, recordAssignedJob { r with jobResult := result } job = st ∧ st.id = r.id ∧
      st.version = r.version ∧ st.assignedJobID = (recordAssignedJob r job).assignedJobID ∧
      EndedWell st := by
  obtain ⟨assigned, name, hrecord, -⟩ := recordAssignedJob_eq r job
  refine ⟨_, recordAssignedJob_jobResult r job result, ?_⟩
  rw [hrecord]
  exact ⟨rfl, rfl, rfl, hr.status, hr.stage, hr.reason, hr.error⟩

theorem recordAssignedJob_of_not (h : shouldRecordAssignedJob r job = false) :
    recordAssignedJob r job = r := by
  simp [recordAssignedJob, h]

theorem ends_stopRunner {n : Nat} {source : TerminationSource} (hw : StoreWorks allowed)
    (hstop : ∀ sandboxID x, allowed (.stopSandbox sandboxID) x →
      ∀ err, x.err = some err → isSandboxGone err = true)
    (hremove : ∀ x, allowed (.remote .removeRunner) x → x.err = e)
    (hretry : ∀ err, e = some err → err.plain = true ∧
      (classifyRetryableError "github_cleanup" err).2 = true ∧ n < cfg.retryMaxAttempts)
    (hlock : s.locks id = none) (hf : s.rows.find (sanitizeID id) = some r)
    (hkey : sanitizeID id ≠ "") (hr : Found n r) (hown : workflowJobMismatch r job = false)
    (hassigned : workflowJobStopConflictsWithAssignment r job = false) :
    (machine cfg).Ends i allowed (fun _ t => t.locks id = none ∧ ∃ r',
      t.rows.find (sanitizeID id) = some r' ∧
      Left e r.workflowJobID (recordAssignedJob r job).assignedJobID n r')
      (stopRunner cfg id job source) s := by
  apply ends_withLock hlock
  have ht : Holding i id r { s with locks := Function.update s.locks id (some i) } :=
    ⟨Function.update_self .., hf, hkey⟩
  generalize { s with locks := Function.update s.locks id (some i) } = t at ht
  -- The lock is released at the end, whatever row is there by then.
  refine Machine.Ends.mono (Q := fun _ u => ∃ r', Holding i id r' u ∧
    Left e r.workflowJobID (recordAssignedJob r job).assignedJobID n r') ?_ ?_
  swap
  · rintro a u ⟨r', hu, hleft⟩
    exact ⟨hu.lock, Function.update_self .., r', hu.row, hleft⟩
  apply ends_readState hw ht
  apply ends_now
  intro now
  obtain ⟨result, hresult⟩ := retainWorkflowJobResult_eq r job now
  have hconflict : workflowJobStopConflictsWithAssignment { r with jobResult := result } job =
      false := hassigned
  generalize retainWorkflowJobResult r job now = retained at hresult ⊢
  obtain ⟨kept, changed⟩ := retained
  obtain rfl : kept = { r with jobResult := result } := hresult
  simp only [hconflict, Bool.false_eq_true, if_false]
  rcases hr with hr | hr
  · rw [if_pos hr.status]
    obtain ⟨st, hst, hid, hversion, hafter, hended⟩ :=
      recordCompleted_spec job hr result
    rw [hst]
    split
    · have hid' : sanitizeID st.id = sanitizeID id := by
        rw [hid, Table.key_of_find hf, sanitizeID_sanitizeID]
      apply ends_writeState hw ht hid' hversion
      intro at' u hu
      exact Machine.ends_done.mpr ⟨_, hu, left_written hafter (.inl hended)⟩
    · rename_i hnot
      have hshould : shouldRecordAssignedJob r job = false := by
        simp only [Bool.or_eq_true, not_or, Bool.not_eq_true] at hnot
        exact hnot.2
      rw [recordAssignedJob_of_not hshould]
      exact Machine.ends_done.mpr ⟨r, ht, rfl, rfl, .inl hr⟩
  · have hstatus : r.status ≠ .completed := by
      rcases hr.status with h | h <;> simp [h]
    rw [if_neg hstatus]
    obtain ⟨st, hst, hid, hversion, hjob, hafter, hcount, honly⟩ :=
      beginStop_spec job hr result source now
    rw [hst, ← hafter, ← hcount]
    have hid' : sanitizeID st.id = sanitizeID id := by
      rw [hid, Table.key_of_find hf, sanitizeID_sanitizeID]
    apply ends_writeState hw ht hid' hversion
    intro at' u hu
    apply ends_finishStopping hw hstop hremove _ hu (Copies.written ⟨hid', hversion, hjob⟩)
      ⟨honly.stage, honly.reason⟩
    · unfold workflowJobMismatch at hown ⊢
      rw [show (nextVersion st).workflowJobID = r.workflowJobID from hjob]
      exact hown
    · rw [show (nextVersion st).retryCount = n from hcount]
      exact hretry

end Programs

/-! ### Stops one after another -/

theorem no_conflict_of_assigned {r : RunnerState} {job : WorkflowJob}
    (h : job.id ≠ 0 → r.assignedJobID = job.id) :
    workflowJobStopConflictsWithAssignment r job = false := by
  unfold workflowJobStopConflictsWithAssignment
  by_cases h0 : job.id = 0
  · simp [h0]
  · simp [h0, h h0]

theorem StopOutcome.allows_stop {outcome : StopOutcome}
    (h : ∀ err, outcome ≠ .sandboxFails err) (sandboxID : String) (x : Choice)
    (hx : outcome.allows (.stopSandbox sandboxID) x) :
    ∀ err, x.err = some err → isSandboxGone err = true := by
  cases outcome with
  | sandboxFails err => exact absurd rfl (h err)
  | cleanupFails | succeeds => exact hx

theorem StopOutcome.allows_remove {outcome : StopOutcome} {e : Option Err}
    (h : outcome = .succeeds ∧ e = none ∨ ∃ err, outcome = .cleanupFails err ∧ e = some err)
    (x : Choice) (hx : outcome.allows (.remote .removeRunner) x) : x.err = e := by
  obtain ⟨rfl, rfl⟩ | ⟨err, rfl, rfl⟩ := h <;> exact hx

/-- The row before a stop for the given job, or for none, after at most `n` retries. -/
structure Ready (job : WorkflowJob) (n : Nat) (r : RunnerState) : Prop where
  found : Found n r
  own : workflowJobMismatch r job = false
  assigned : job.id ≠ 0 → r.assignedJobID = job.id

theorem ends_call_of_found {job : WorkflowJob} {n : Nat} {r : RunnerState} {s : State}
    {call : StopCall} {e : Option Err} (hlock : s.locks id = none)
    (hf : s.rows.find (sanitizeID id) = some r) (hkey : sanitizeID id ≠ "") (hr : Found n r)
    (hown : workflowJobMismatch r job = false)
    (hconflict : workflowJobStopConflictsWithAssignment r call.job = false)
    (hjob : call.job = job ∨ call.job.id = 0 ∧ (job.id ≠ 0 → r.assignedJobID = job.id))
    (hout : call.outcome = .succeeds ∧ e = none ∨ ∃ err, call.outcome = .cleanupFails err ∧
      e = some err ∧ call.outcome.Retryable ∧ n < cfg.retryMaxAttempts) :
    (machine cfg).Ends i call.outcome.allows (fun _ t => t.locks id = none ∧ ∃ r',
      t.rows.find (sanitizeID id) = some r' ∧ (e = none → EndedWell r') ∧ Ready job (n + 1) r')
      (stopRunner cfg id call.job call.source) s := by
  have hmismatch : workflowJobMismatch r call.job = false := by
    rcases hjob with h | ⟨h, -⟩
    · rw [h]
      exact hown
    · simp [workflowJobMismatch, h]
  have hsandbox : ∀ err, call.outcome ≠ .sandboxFails err := by
    intro err he
    rw [he] at hout
    obtain ⟨h, -⟩ | ⟨_, h, -⟩ := hout <;> cases h
  have hremove : call.outcome = .succeeds ∧ e = none ∨
      ∃ err, call.outcome = .cleanupFails err ∧ e = some err := by
    obtain h | ⟨err, h, he, -⟩ := hout
    · exact .inl h
    · exact .inr ⟨err, h, he⟩
  apply (ends_stopRunner (e := e) call.outcome.storeWorks (StopOutcome.allows_stop hsandbox)
    (StopOutcome.allows_remove hremove) _ hlock hf hkey hr hmismatch hconflict).mono
  · rintro a t ⟨hfree, r', hf', hjob', hassigned', hleft⟩
    refine ⟨hfree, r', hf', ?_, ?_, ?_, ?_⟩
    · rintro rfl
      exact hleft.resolve_right (by simp)
    · exact hleft.imp_right And.right
    · unfold workflowJobMismatch at hown ⊢
      rw [hjob']
      exact hown
    · intro h0
      obtain ⟨assigned, name, hrecord, hzero, hsome⟩ := recordAssignedJob_eq r call.job
      rw [hassigned', hrecord]
      show assigned = job.id
      rcases hjob with h | ⟨h, hsame⟩
      · rw [h] at hsome
        exact hsome h0
      · exact (hzero h).trans (hsame h0)
  · intro err he
    obtain ⟨-, h⟩ | ⟨err', hc, h, hretry, hn⟩ := hout
    · rw [h] at he
      cases he
    · rw [h] at he
      cases he
      rw [hc] at hretry
      exact ⟨hretry.1, hretry.2, hn⟩

/-- A stop that is not refused: for the job itself, or for no job once the job is assigned. -/
def Accepted (job : WorkflowJob) (r : RunnerState) (call : StopCall) : Prop :=
  workflowJobStopConflictsWithAssignment r call.job = false ∧
  (call.job = job ∨ call.job.id = 0 ∧ (job.id ≠ 0 → r.assignedJobID = job.id))

theorem Ready.accepted {job : WorkflowJob} {n : Nat} {r : RunnerState} {call : StopCall}
    (hr : Ready job n r) (h : call.job = job ∨ call.job.id = 0) : Accepted job r call := by
  refine ⟨no_conflict_of_assigned ?_, h.imp_right fun h0 => ⟨h0, hr.assigned⟩⟩
  rcases h with h | h
  · rw [h]
    exact hr.assigned
  · exact fun h0 => absurd h h0

/-- Removals fail, until all goes well. -/
theorem stops_of_found (calls : List StopCall) {job : WorkflowJob} {last : StopCall}
    (hkey : sanitizeID id ≠ "") (hlast : last.outcome = .succeeds) {n : Nat} {r : RunnerState}
    {s : State} (hlock : s.locks id = none) (hf : s.rows.find (sanitizeID id) = some r)
    (hr : Found n r) (hown : workflowJobMismatch r job = false)
    (hfirst : ∀ call ∈ (calls ++ [last]).head?, Accepted job r call)
    (hjobs : ∀ call ∈ calls ++ [last], call.job = job ∨ call.job.id = 0)
    (hfails : ∀ call ∈ calls, ∃ err, call.outcome = .cleanupFails err ∧ call.outcome.Retryable)
    (hcount : calls.length ≤ cfg.retryMaxAttempts - n) :
    Stops cfg i id (fun t => ∃ r', t.rows.find (sanitizeID id) = some r' ∧ EndedWell r')
      (calls ++ [last]) s := by
  induction calls generalizing n r s with
  | nil =>
    obtain ⟨hconflict, hjob⟩ := hfirst last rfl
    apply (ends_call_of_found (n := n) hlock hf hkey hr hown hconflict hjob
      (.inl ⟨hlast, rfl⟩)).mono
    rintro a t ⟨-, r', hf', hended, -⟩ t' ⟨hrows, -⟩
    exact ⟨r', hrows.trans hf', hended rfl⟩
  | cons call calls ih =>
    obtain ⟨hconflict, hjob⟩ := hfirst call rfl
    obtain ⟨err, hc, hretry⟩ := hfails call List.mem_cons_self
    have hn : n < cfg.retryMaxAttempts := by
      simp only [List.length_cons] at hcount
      omega
    apply (ends_call_of_found hlock hf hkey hr hown hconflict hjob
      (.inr ⟨err, hc, rfl, hretry, hn⟩)).mono
    rintro a t ⟨hfree, r', hf', -, hready⟩ t' ⟨hrows, hlocks⟩
    have hjobs' : ∀ call ∈ calls ++ [last], call.job = job ∨ call.job.id = 0 :=
      fun c hc => hjobs c (List.mem_cons_of_mem _ hc)
    apply ih (hlocks.trans hfree) (hrows.trans hf') hready.found hready.own _ hjobs'
      (fun c hc => hfails c (List.mem_cons_of_mem _ hc))
    · simp only [List.length_cons] at hcount
      omega
    · intro c hc
      exact hready.accepted (hjobs' c (List.mem_of_mem_head? hc))

/-- A running request is stopped for its own job, and the stop is tried again, for the job or for
no job, as long as the runner cannot be removed from GitHub: the request ends as it does when the
first stop succeeds. -/
theorem cleanup_retries_transparent (job : WorkflowJob) (calls : List StopCall) (last : StopCall)
    {r : RunnerState} {s : State} (hid : r.id ≠ "") (hlock : s.locks id = none)
    (hf : s.rows.find (sanitizeID id) = some r) (hrunning : r.status = .running)
    (hclean : r.failureStage = none ∧ r.failureReason = "" ∧ r.error = "")
    (hown : workflowJobMismatch r job = false)
    (hassigned : workflowJobStopConflictsWithAssignment r job = false)
    (hfirst : ∀ call ∈ (calls ++ [last]).head?, call.job = job)
    (hjobs : ∀ call ∈ calls ++ [last], call.job = job ∨ call.job.id = 0)
    (hfails : ∀ call ∈ calls, ∃ err, call.outcome = .cleanupFails err ∧ call.outcome.Retryable)
    (hlast : last.outcome = .succeeds)
    (hcount : calls.length ≤ cfg.retryMaxAttempts - r.retryCount) :
    Stops cfg i id (fun t => ∃ r', t.rows.find (sanitizeID id) = some r' ∧ EndedWell r')
      (calls ++ [last]) s ∧
    Stops cfg i id (fun t => ∃ r', t.rows.find (sanitizeID id) = some r' ∧ EndedWell r')
      [⟨job, last.source, .succeeds⟩] s := by
  have hkey : sanitizeID id ≠ "" := by
    rw [← Table.key_of_find hf]
    exact hid
  have hfound : Found r.retryCount r := by
    refine .inr ⟨⟨.inl hclean.1, ?_⟩, .inl hrunning, rfl⟩
    rw [hclean.2.1]
    decide
  constructor
  · apply stops_of_found calls hkey hlast hlock hf hfound hown _ hjobs hfails hcount
    intro call hc
    have hjob := hfirst call hc
    exact ⟨by rw [hjob]; exact hassigned, .inl hjob⟩
  · apply stops_of_found [] hkey rfl hlock hf hfound hown
    · intro call hc
      cases hc
      exact ⟨hassigned, .inl rfl⟩
    · intro call hc
      rw [List.mem_singleton.mp hc]
      exact .inl rfl
    · exact nofun
    · exact Nat.zero_le _

/-- A running request with a runner that GitHub knows. -/
def runningRow : RunnerState where
  id := "1"
  status := .running
  repositoryFullName := "o/r"
  runnerName := "e2b-1"
  sandboxID := "s1"
  workflowJobID := 1

/-- GitHub is not reached at the first two stops. -/
theorem cleanup_retries_transparent_timeouts :
    Stops oneRunner 0 "1" (fun t => ∃ r', t.rows.find (sanitizeID "1") = some r' ∧ EndedWell r')
      [⟨{ id := 1 }, .workflowJobWebhook, .cleanupFails (.deadlineExceeded "timed out")⟩,
        ⟨{}, .recoveryCleanup, .cleanupFails (.message "status 502")⟩,
        ⟨{}, .recoveryCleanup, .succeeds⟩]
      (State.initial (Table.empty.insert runningRow)) := by
  refine (cleanup_retries_transparent { id := 1 }
    [⟨{ id := 1 }, .workflowJobWebhook, .cleanupFails (.deadlineExceeded "timed out")⟩,
      ⟨{}, .recoveryCleanup, .cleanupFails (.message "status 502")⟩]
    ⟨{}, .recoveryCleanup, .succeeds⟩ (r := runningRow) (by decide) rfl (by decide +kernel) rfl
    ⟨rfl, rfl, rfl⟩ (by decide) (by decide +kernel) ?_ ?_ ?_ rfl (by decide)).1
  · intro call hc
    cases hc
    rfl
  · simp
  · simp only [List.mem_cons, List.not_mem_nil, or_false]
    rintro call (rfl | rfl)
    · exact ⟨_, rfl, rfl, by decide +kernel⟩
    · exact ⟨_, rfl, rfl, by decide +kernel⟩

/-- The stop of a running request for its own job runs into a timeout of the sandbox service. The
sweeper stops the request again, and this time all goes well: the request has failed. -/
theorem sandbox_retry_shows : ∃ c c' r r', (machine oneRunner).Reachable .empty c ∧
    c.state.rows.find "1" = some r ∧ r.status = .running ∧ r.failureStage = none ∧
    r.failureReason = "" ∧ r.error = "" ∧ r.workflowJobID = 1 ∧
    (machine oneRunner).exec c
      (.start (.workflowJobCompleted { id := 1, status := "completed" }) ::
        calls 2 5 { ticks := 8 } ++
        .run 2 { ticks := 9, err := some (.deadlineExceeded "timed out") } ::
        calls 2 3 { ticks := 10 } ++ .start .sweepOnce :: calls 3 11 { ticks := 400 }) = some c' ∧
    c'.state.rows.find "1" = some r' ∧ r'.status = .failed ∧ r'.failureStage = some .stop ∧
    r'.error = "timed out" := by
  obtain ⟨c, hr, hp⟩ := Machine.exists_reachable_of_exec (M := machine oneRunner) (s := .empty)
    (provisioned 1 ++ calls 1 6 { ticks := 3 })
    (fun c => ((machine oneRunner).exec c
      (.start (.workflowJobCompleted { id := 1, status := "completed" }) ::
        calls 2 5 { ticks := 8 } ++
        .run 2 { ticks := 9, err := some (.deadlineExceeded "timed out") } ::
        calls 2 3 { ticks := 10 } ++ .start .sweepOnce :: calls 3 11 { ticks := 400 })).any
      fun c' => testRow "1" (fun _ r r' => r.status = .running && r.failureStage = none &&
        r.failureReason = "" && r.error = "" && r.workflowJobID = 1 && r'.status = .failed &&
        r'.failureStage = some .stop && r'.error = "timed out") c c')
    (by decide +kernel)
  obtain ⟨c', hc', hp⟩ := (Option.any_eq_true ..).mp hp
  obtain ⟨r, r', hf, hf', hrow⟩ := of_testRow hp
  simp only [Bool.and_eq_true, decide_eq_true_eq] at hrow
  obtain ⟨⟨⟨⟨⟨⟨⟨hrunning, hstage⟩, hreason⟩, herror⟩, hjob⟩, hfailed⟩, hstop⟩, htext⟩ := hrow
  exact ⟨c, c', r, r', hr, hf, hrunning, hstage, hreason, herror, hjob, hc', hf', hfailed, hstop,
    htext⟩

end CiRunner.Lifecycle
