import CiRunner.Lifecycle.StopOutline
import CiRunner.Lifecycle.Steps

/-! The programs of recovery, of the loops, of webhooks and of the administrator
follow the outline, and with that the whole machine does. -/

namespace CiRunner.Lifecycle

open Threads CiRunner.State Text

variable {cfg : Settings} {R : Reading cfg} {κ κ' : Know} {id : String} {st b r : RunnerState}

/-! ### Recovery -/

theorem follows_cleanupInterrupted (req st : RunnerState) :
    R.part.Follows (fun κ' _ => κ' = κ) κ (cleanupInterrupted req st) := by
  unfold cleanupInterrupted
  split
  · exact follows_cleanupGitHubRunner st
  · exact Outline.follows_pure rfl

theorem accounts_requeueInterrupted {m : Nat} (hs : b.status = .creating) :
    Accounts m b (requeueInterrupted b) .requeueInterrupted := by
  have hlive : live b.status = true := by
    rw [hs]
    rfl
  exact accounts_requeued trivial (account_requeueInterrupted b) rfl (fun _ => rfl) (.inl rfl)
    (.inl hlive)

theorem follows_requeueInterruptedCreation (id : String) (version : Nat) :
    R.part.Follows (fun _ _ => True) κ (requeueInterruptedCreation cfg id version) := by
  refine follows_withLock (follows_read (Outline.follows_pure trivial) fun r hr => ?_)
  dsimp only
  split
  · exact Outline.follows_pure trivial
  · rename_i hc
    simp only [not_or, not_not] at hc
    refine follows_read (Outline.follows_pure trivial) fun req _ => ?_
    refine follows_quiet rfl fun now _ => (follows_cleanupInterrupted req r).bind
      fun κ₁ err he => ?_
    subst he
    have hcopy : CopyOf (((κ.locked id).read r).read req) r r :=
      ⟨List.mem_cons_of_mem _ (List.mem_cons_self ..), hr.ok.key.symm, rfl⟩
    cases err with
    | some err =>
      exact follows_writeOrLog ⟨by decide, rfl⟩ (b := r)
        ⟨hcopy.edit (rowKey_retainJITCleanup cfg r now), ⟨hc.2, moves_retainJITCleanup cfg r now⟩,
        trivial, accounts_retainJITCleanup cfg r now rfl trivial, trivial⟩ fun _ => trivial
    | none =>
      exact follows_writeOrLog ⟨by decide, rfl⟩ (b := r) ⟨hcopy.edit (rowKey_requeueInterrupted r),
        ⟨hc.2, core_requeueInterrupted r⟩, trivial, accounts_requeueInterrupted hc.2, trivial⟩
        fun _ => trivial

/-- The state `st` is the row `b` as it was read, up to the lease and the job's result. -/
structure Recovers (κ : Know) (st b : RunnerState) : Prop where
  copy : CopyOf κ st b
  core_eq : core st = core b
  ok : RowOk b
  key : sanitizeID st.id = st.id

theorem Recovers.keeps (h : Recovers κ st b) (hk : Keeps κ κ') : Recovers κ' st b :=
  ⟨h.copy.keeps hk, h.core_eq, h.ok, h.key⟩

theorem follows_reconnectRunner (h : Recovers κ st b) (result : StartResult) (n : Nat)
    (region : String)
    (hresult : trimSpace st.sandboxID ≠ "" → result.sandboxID = trimSpace st.sandboxID) :
    R.part.Follows (fun _ _ => True) κ (reconnectRunner st.id st.version result n region) := by
  refine follows_seq (Q := fun _ _ => True) (follows_withLock (follows_read
    (Outline.follows_pure trivial) fun r hr => ?_)) fun κ₁ accepted _ _ => ?_
  · dsimp only
    split
    · exact Outline.follows_pure trivial
    · rename_i hstill
      simp only [ne_eq, Bool.not_eq_true', not_or, not_not, Bool.not_eq_false] at hstill
      have hcore : core r = core st :=
        (hr.core_eq b h.copy.known h.copy.key (h.copy.version.symm.trans hstill.1.symm)).symm.trans
          h.core_eq.symm
      have hsandbox : r.sandboxID = st.sandboxID := congrArg Core.sandboxID hcore
      have htrim : trimSpace st.sandboxID = st.sandboxID := by
        have hb : st.sandboxID = b.sandboxID := congrArg Core.sandboxID h.core_eq
        rw [hb, h.ok.sandbox]
      have hstarted := started_of_isStarted hstill.2
      refine follows_write ⟨nofun, rfl⟩ (b := r) ⟨hr.copy_edit rfl, ⟨hstarted, rfl, rfl,
        result.trimmed, fun hne => ?_, fun he => ?_⟩, ?_, accounts_started trivial (.inr rfl)
        (live_of_started hstarted) nofun (fun hm => absurd hm (unmarked_of_empty rfl)) rfl rfl,
        trivial⟩ ?_ ?_
      · have hne' : r.sandboxID ≠ "" := hne
        refine ⟨?_, if_neg hne'⟩
        rw [hsandbox, ← htrim] at hne'
        exact (hresult hne').trans (htrim.trans hsandbox.symm)
      · have he' : r.sandboxID = "" := he
        rw [if_pos he']
        rfl
      · show r.id ∈ _
        rw [hr.id_eq, h.key]
        exact List.mem_cons_self ..
      · exact Outline.follows_pure trivial
      · exact fun _ _ => Outline.follows_pure trivial
  · split
    · exact follows_quiet_last (.watchExit st.id ⟨result.sandboxID, result.pid⟩) rfl
        fun _ => trivial
    · exact Outline.follows_pure trivial

theorem follows_recoverMissing (st : RunnerState) (version : Nat) (job : Option WorkflowJob)
    (missing : Recovered) :
    R.part.Follows (fun _ _ => True) κ (recoverMissing cfg st version job missing) := by
  cases missing with
  | found | failed => exact Outline.follows_pure trivial
  | sandboxNotFound =>
    unfold recoverMissing
    dsimp only
    split
    · exact follows_failAndStopRunnerVersion _ _ _ (by decide) _
    · split
      · exact Outline.follows_pure trivial
      · split
        · exact follows_requeueInterruptedCreation ..
        · split
          · exact follows_failAndStopRunnerVersion _ _ _ (by decide) _
          · exact Outline.follows_pure trivial
  | runnerNotFound sandboxID =>
    unfold recoverMissing
    dsimp only
    split
    · exact Outline.follows_pure trivial
    · refine follows_seq (follows_stopSandbox sandboxID) fun κ₁ err _ _ => ?_
      cases err with
      | some err => exact Outline.follows_pure trivial
      | none => exact follows_requeueInterruptedCreation ..

theorem follows_reconnectOrRecover (h : Recovers κ st b) (job : Option WorkflowJob) :
    R.part.Follows (fun _ _ => True) κ (reconnectOrRecover cfg st st.version job) := by
  refine follows_quiet rfl fun now _ => ?_
  split
  · exact follows_failAndStopRunnerVersion _ _ _ (by decide) _
  · refine follows_read (Outline.follows_pure trivial) fun req hreq => ?_
    have h' : Recovers (κ.read req) st b :=
      h.keeps (keeps_learn (c := .readState st.id) trivial (some req))
    refine follows_quiet rfl fun service _ => ?_
    cases service with
    | some err => exact Outline.follows_pure trivial
    | none =>
    refine follows_quiet rfl fun found ht => ?_
    cases found with
    | found result n => exact follows_reconnectRunner h' result n _ (ht result n rfl)
    | sandboxNotFound | runnerNotFound | failed => exact follows_recoverMissing ..

theorem follows_workflowJobForRecovery (st : RunnerState) :
    R.part.Follows (fun _ _ => True) κ (workflowJobForRecovery st) := by
  unfold workflowJobForRecovery
  split
  · exact Outline.follows_pure trivial
  · refine follows_quiet rfl fun answer _ => ?_
    cases answer <;> exact Outline.follows_pure trivial

theorem follows_recoverActiveRunner (h : Recovers κ st b) :
    R.part.Follows (fun _ _ => True) κ (recoverActiveRunner cfg st st.version) := by
  refine follows_seq (follows_workflowJobForRecovery st) fun κ₁ job _ h₁ => ?_
  cases job with
  | none => exact follows_reconnectOrRecover (h.keeps h₁) none
  | some job =>
    dsimp only
    split
    · refine follows_seq (follows_stopRunner st.id job .recoveryCleanup) fun κ₂ latest hl _ => ?_
      cases latest with
      | none => exact Outline.follows_pure trivial
      | some latest =>
        dsimp only
        split
        · rename_i hs
          obtain ⟨b', hcopy, hcore, hok, hid⟩ := hl latest rfl hs
          refine follows_reconnectOrRecover (b := b') ⟨hcopy, hcore, hok, ?_⟩ (some job)
          rw [hid, sanitizeID_sanitizeID]
        · exact Outline.follows_pure trivial
    · exact follows_reconnectOrRecover (h.keeps h₁) (some job)

theorem follows_recoverRunner (id : String) :
    R.part.Follows (fun _ _ => True) κ (recoverRunner cfg id) := by
  have hunlock : ∀ κ', R.part.Follows (fun _ _ => True) κ' (ask (.unlock id)) :=
    fun _ => follows_unlock_last trivial
  refine follows_lock (follows_read (hunlock _) fun r hr => ?_)
  have hrecovers : Recovers (((κ.locked id).read r).unlocked id) r r :=
    ⟨⟨List.mem_cons_self .., hr.ok.key.symm, rfl⟩, rfl, hr.ok, hr.ok.key⟩
  dsimp only
  split
  · exact follows_write ⟨by decide, rfl⟩ (b := r) ⟨hr.copy_edit rfl, rfl, trivial,
      accounts_same rfl trivial rfl, trivial⟩ (hunlock _) fun _ _ => hunlock _
  · exact follows_unlock (follows_seq (follows_stopRunner id {} .recoveryCleanup)
      fun _ _ _ _ => Outline.follows_pure trivial)
  · exact follows_unlock (follows_recoverActiveRunner hrecovers)
  · exact follows_unlock (follows_recoverActiveRunner hrecovers)
  · exact hunlock _
  · exact hunlock _

/-! ### Jobs, the sweeper and the reconciler -/

theorem follows_markRunnerJobStarted (attempt : Option Nat) (id : String) :
    R.part.Follows (fun _ _ => True) κ (markRunnerJobStarted attempt id) := by
  refine follows_withLock (follows_read (Outline.follows_pure trivial) fun r hr => ?_)
  dsimp only
  split
  · exact Outline.follows_pure trivial
  · exact follows_writeOrLog ⟨nofun, rfl⟩ (b := r) ⟨hr.copy_edit rfl, rfl, trivial,
      accounts_same rfl trivial rfl, trivial⟩ fun _ => trivial

theorem follows_appendRunnerStdout (attempt : Nat) (id : String) (data : Utf8.Bytes) :
    R.part.Follows (fun _ _ => True) κ (appendRunnerStdout attempt id data) := by
  unfold appendRunnerStdout
  split
  · exact follows_markRunnerJobStarted ..
  · exact Outline.follows_pure trivial

theorem follows_markWorkflowJobInProgress (id : String) (job : WorkflowJob) :
    R.part.Follows (fun _ _ => True) κ (markWorkflowJobInProgress id job) := by
  refine follows_withLock (follows_read (Outline.follows_pure trivial) fun r hr => ?_)
  dsimp only
  split
  · exact Outline.follows_pure trivial
  · split
    · exact follows_writeOrLog ⟨by decide, rfl⟩ (b := r) ⟨hr.copy_edit (rowKey_recordAssignedJob ..),
        core_recordAssignedJob .., trivial, accounts_same rfl trivial
        (account_recordAssignedJob ..), trivial⟩ fun _ => trivial
    · exact Outline.follows_pure trivial

theorem follows_stopIfExists (id : String) (source : TerminationSource) :
    R.part.Follows (fun _ _ => True) κ (stopIfExists cfg id source) := by
  refine follows_read (Outline.follows_pure trivial) fun _ _ => ?_
  exact follows_seq (follows_stopRunner id {} source) fun _ _ _ _ => Outline.follows_pure trivial

theorem accounts_retryOrFail {stage : Stage} {err : Err}
    (herr : isQueueDeferFailure (classifyRetryableError stage.text err).1 = false) (now : Time)
    (hs : b.status ≠ .completed ∧ b.status ≠ .failed) :
    Accounts cfg.retryMaxAttempts b (applyFailure cfg b stage err true now) .retryOrFail := by
  obtain ⟨hm, -, ⟨hfailed, hc⟩ | ⟨hq, hf, hc, hd | hnext⟩⟩ := applyFailure_cases cfg b stage err now
  · exact accounts_ended hs (.inl hfailed) (fun h => absurd h hm) hc fun hd => by
      rw [hfailed] at hd
      cases hd
  · rw [herr] at hd
    cases hd.2
  · exact accounts_queued hs hq (.inr hnext) hm (fun _ => hc) (.inr ⟨hf, rfl⟩) (.inr rfl)

theorem follows_retryOrFail (id : String) {stage : Stage} {err : Err}
    (herr : isQueueDeferFailure (classifyRetryableError stage.text err).1 = false) :
    R.part.Follows (fun _ _ => True) κ (retryOrFail cfg id stage err) := by
  refine follows_withLock (follows_read (Outline.follows_pure trivial) fun r hr => ?_)
  dsimp only
  split
  · exact Outline.follows_pure trivial
  · rename_i hs
    exact follows_quiet rfl fun now _ => follows_writeOrLog ⟨by decide, rfl⟩ (b := r)
      ⟨hr.copy_edit (rowKey_applyFailure ..), resets_applyFailure .., trivial,
      accounts_retryOrFail herr now (not_or.mp hs), trivial⟩ fun _ => trivial

theorem follows_sweepTimeout (now : Time) (st : RunnerState) :
    R.part.Follows (fun _ _ => True) κ (sweepTimeout cfg now st) := by
  unfold sweepTimeout
  split
  · split
    · exact follows_seq (follows_retryOrFail _ rfl) fun _ _ _ _ => Outline.follows_pure trivial
    · exact Outline.follows_pure trivial
  · split
    · exact follows_seq (follows_failAndStopRunnerVersion _ _ _ (by decide) _) fun _ _ _ _ =>
        Outline.follows_pure trivial
    · exact Outline.follows_pure trivial
  · split
    · exact follows_seq (follows_stopIfExists ..) fun _ _ _ _ => Outline.follows_pure trivial
    · exact Outline.follows_pure trivial
  · exact Outline.follows_pure trivial

theorem follows_sweepTimeouts (now : Time) (states : List RunnerState) :
    R.part.Follows (fun _ _ => True) κ (sweepTimeouts cfg now states) := by
  induction states generalizing κ with
  | nil => exact Outline.follows_pure trivial
  | cons st rest ih =>
    exact follows_seq (follows_sweepTimeout now st) fun _ _ _ _ =>
      follows_seq ih fun _ _ _ _ => Outline.follows_pure trivial

theorem follows_sweepIdle (now : Time) (stopped : List String) (st : RunnerState) :
    R.part.Follows (fun _ _ => True) κ (sweepIdle cfg now stopped st) := by
  unfold sweepIdle
  split
  · exact Outline.follows_pure trivial
  · refine follows_seq (follows_originalWorkflowJobQueued st) fun κ₁ queued _ _ => ?_
    match queued with
    | .error _ => exact Outline.follows_pure trivial
    | .ok true => exact Outline.follows_pure trivial
    | .ok false =>
    refine follows_seq (follows_githubRunnerBusy st) fun κ₂ busy _ _ => ?_
    match busy with
    | .error _ => exact Outline.follows_pure trivial
    | .ok true => exact follows_markRunnerJobStarted ..
    | .ok false => exact follows_stopIfExists ..

theorem follows_forEach {f : RunnerState → Prog Reply Unit}
    (hf : ∀ κ st, R.part.Follows (fun _ _ => True) κ (f st)) (states : List RunnerState) :
    R.part.Follows (fun _ _ => True) κ (forEach f states) := by
  induction states generalizing κ with
  | nil => exact Outline.follows_pure trivial
  | cons st rest ih => exact follows_seq (hf κ st) fun _ _ _ _ => ih

theorem follows_sweepOnce : R.part.Follows (fun _ _ => True) κ (sweepOnce cfg) := by
  refine follows_quiet rfl fun states _ => follows_quiet rfl fun now _ => ?_
  refine follows_seq (follows_sweepTimeouts now states) fun _ stopped _ _ => ?_
  exact follows_forEach (fun _ st => follows_sweepIdle now stopped st) states

theorem follows_reconcileStopping (st : RunnerState) :
    R.part.Follows (fun _ _ => True) κ (reconcileStopping cfg st) := by
  refine follows_quiet rfl fun now _ => ?_
  split
  · exact follows_stopIfExists ..
  · exact Outline.follows_pure trivial

theorem follows_reconcileMismatchedCompletedJob (st : RunnerState) :
    R.part.Follows (fun _ _ => True) κ (reconcileMismatchedCompletedJob st) := by
  refine follows_seq (Q := fun _ _ => True) (follows_withLock (follows_read_last trivial
    fun _ _ => trivial)) fun κ₁ before _ _ => ?_
  cases before with
  | none => exact Outline.follows_pure trivial
  | some current =>
  dsimp only
  split
  · exact Outline.follows_pure trivial
  · refine follows_seq (follows_queuedOrUnknown current) fun κ₂ queued _ _ => ?_
    refine follows_withLock (follows_read (Outline.follows_pure trivial) fun r hr => ?_)
    dsimp only
    split
    · exact Outline.follows_pure trivial
    · rename_i hstill
      simp only [ne_eq, not_or, not_not] at hstill
      exact follows_seq (follows_requeueMismatchedWorkflowJob hr.copy rfl (.inr hstill.1) rfl
        (.inr hstill.1) (fun hm => hm) rfl rfl queued) fun _ _ _ _ => Outline.follows_pure trivial

theorem follows_completeIfWorkflowJobCompleted (id : String) :
    R.part.Follows (fun _ _ => True) κ (completeIfWorkflowJobCompleted id) := by
  refine follows_seq (Q := fun _ _ => True) (follows_withLock (follows_read_last trivial
    fun _ _ => trivial)) fun κ₁ before _ _ => ?_
  cases before with
  | none => exact Outline.follows_pure trivial
  | some e =>
  dsimp only
  split
  · exact Outline.follows_pure trivial
  · refine follows_quiet rfl fun answer _ => ?_
    cases answer with
    | error err => exact Outline.follows_pure trivial
    | ok job =>
    dsimp only
    split
    · exact Outline.follows_pure trivial
    · refine follows_withLock (follows_read (Outline.follows_pure trivial) fun r hr => ?_)
      dsimp only
      split
      · exact Outline.follows_pure trivial
      · refine follows_quiet rfl fun now _ => ?_
        obtain ⟨hkey, hm⟩ := completeObserved_cases r job now
        obtain ⟨hs, hr', hc, hf⟩ := completeObserved_account r job now
        exact follows_writeOrLog ⟨by decide, rfl⟩ (b := r) ⟨hr.copy_edit hkey, hm, trivial,
          accounts_ended trivial (.inr hs) (fun h => absurd h (unmarked_of_empty hr')) hc
          fun _ => hf, trivial⟩ fun _ => trivial

theorem follows_reconcileOnce : R.part.Follows (fun _ _ => True) κ (reconcileOnce cfg) := by
  refine follows_quiet rfl fun states _ => ?_
  refine follows_seq (follows_forEach (fun _ st => follows_reconcileStopping st) states)
    fun _ _ _ _ => follows_quiet rfl fun mismatched _ => ?_
  refine follows_seq (follows_forEach (fun _ st => follows_reconcileMismatchedCompletedJob st)
    mismatched) fun _ _ _ _ => follows_quiet rfl fun failed _ => ?_
  exact follows_forEach (fun _ st => follows_completeIfWorkflowJobCompleted st.id) failed

/-! ### Webhooks and administration -/

theorem follows_completedWorkflowJobStopID (job : WorkflowJob) :
    R.part.Follows (fun _ _ => True) κ (completedWorkflowJobStopID job) := by
  unfold completedWorkflowJobStopID
  split
  · exact Outline.follows_pure trivial
  · split
    · exact Outline.follows_pure trivial
    · exact follows_read (Outline.follows_pure trivial) fun _ _ => Outline.follows_pure trivial

theorem follows_workflowJobInProgress (job : WorkflowJob) :
    R.part.Follows (fun _ _ => True) κ (workflowJobInProgress job) := by
  refine follows_seq (follows_completedWorkflowJobStopID job) fun _ found _ _ => ?_
  cases found with
  | none => exact Outline.follows_pure trivial
  | some id => exact follows_markWorkflowJobInProgress id job

theorem follows_workflowJobCompleted (job : WorkflowJob) :
    R.part.Follows (fun _ _ => True) κ (workflowJobCompleted cfg job) := by
  refine follows_seq (follows_completedWorkflowJobStopID job) fun _ found _ _ => ?_
  cases found with
  | none => exact Outline.follows_pure trivial
  | some id =>
    exact follows_seq (follows_stopRunner id job .workflowJobWebhook)
      fun _ _ _ _ => Outline.follows_pure trivial

theorem follows_wakeWaitingWorkflowJob (req : NewRequest) :
    R.part.Follows (fun _ _ => True) κ (wakeWaitingWorkflowJob req) := by
  unfold wakeWaitingWorkflowJob
  split
  · exact Outline.follows_pure trivial
  · refine follows_read (Outline.follows_pure trivial) fun r hr => ?_
    dsimp only
    split
    · exact Outline.follows_pure trivial
    · exact follows_writeOrLog ⟨by decide, rfl⟩ (b := r) ⟨hr.copy_edit rfl, rfl, trivial,
        accounts_same rfl trivial rfl, trivial⟩ fun _ => trivial

theorem newRow_row (req : NewRequest) (now : Time) : NewRow (req.row now) where
  ok := ⟨sanitizeID_sanitizeID req.id, coreOk_empty.sandbox, fun _ => rfl, environment_trim_empty,
    service_trim_empty⟩
  status := .inl (by simp [core, NewRequest.row])

theorem newRow_rejectedRow (req : NewRequest) (reason : String) (now : Time) :
    NewRow (req.rejectedRow reason now) where
  ok := ⟨sanitizeID_sanitizeID req.id, coreOk_empty.sandbox, fun _ => rfl, environment_trim_empty,
    service_trim_empty⟩
  status := .inr ⟨rfl, rfl⟩

theorem follows_createRequest {row : RunnerState} (h : NewRow row) :
    R.part.Follows (fun _ _ => True) κ (ask (.createRequest row)) :=
  R.part.follows_ask (.createRequest row) ⟨h, trivial⟩ fun _ _ => trivial

theorem follows_enqueueWorkflowJob (req : NewRequest) :
    R.part.Follows (fun _ _ => True) κ (enqueueWorkflowJob req) :=
  follows_read (follows_quiet rfl fun now _ => follows_createRequest (newRow_row req now))
    fun _ _ => follows_wakeWaitingWorkflowJob req

theorem follows_retryHistoricalWaitingJob (id : String) :
    R.part.Follows (fun _ _ => True) κ (retryHistoricalWaitingJob id) := by
  refine follows_read (Outline.follows_pure trivial) fun r hr => ?_
  dsimp only
  split
  · exact Outline.follows_pure trivial
  · rename_i hran
    simp only [Bool.not_eq_true', Bool.not_eq_false] at hran
    refine follows_quiet rfl fun skipped _ => ?_
    cases skipped with
    | some err => exact Outline.follows_pure trivial
    | none =>
    refine follows_read (Outline.follows_pure trivial) fun req _ => ?_
    refine follows_quiet rfl fun answer _ => ?_
    cases answer with
    | error err => exact Outline.follows_pure trivial
    | ok job =>
    dsimp only
    split
    · exact Outline.follows_pure trivial
    · refine follows_withLock (follows_quiet rfl fun profile _ => ?_)
      cases profile with
      | some err => exact Outline.follows_pure trivial
      | none =>
        have hstatus : r.status = .completed ∧ r.sandboxID = "" := by
          simp only [neverRan, Bool.and_eq_true, decide_eq_true_eq] at hran
          exact ⟨hran.1.1.1.1.1.1.1.1.1.1, hran.1.1.1.1.1.1.1.1.2⟩
        refine follows_writeOrLog ⟨by decide, rfl⟩ (b := r) ⟨CopyOf.edit ⟨?_, hr.ok.key.symm, rfl⟩
          (rowKey_requeueHistorical r), ⟨hstatus.1, hstatus.2, core_requeueHistorical r hran⟩,
          trivial, accounts_requeued trivial (account_requeueHistorical r) rfl
          (fun h => absurd rfl h) (.inr ⟨rfl, rfl⟩) (.inr rfl), trivial⟩ fun _ => trivial
        exact List.mem_cons_of_mem _ (List.mem_cons_self ..)

theorem follows_retryRunner (id : String) :
    R.part.Follows (fun _ _ => True) κ (retryRunner id) := by
  refine follows_quiet rfl fun now _ => follows_read (Outline.follows_pure trivial) fun r hr => ?_
  dsimp only
  split
  · rename_i hretry
    exact R.part.follows_ask (.retryUpdate r now) ⟨⟨List.mem_cons_self .., hretry⟩, trivial⟩
      fun _ _ => trivial
  · exact follows_retryHistoricalWaitingJob id

/-! ### The machine -/

theorem follows_program (op : Op) : R.outline.Follows (fun _ _ => True) {} (program cfg op) := by
  cases op with
  | processQueuedRequests => exact follows_processQueuedRequests
  | enqueueWorkflowJob req => exact follows_of_part (follows_enqueueWorkflowJob req)
  | createRejectedRequest req reason =>
    exact follows_of_part (follows_quiet rfl fun now _ =>
      follows_createRequest (newRow_rejectedRow req reason now))
  | runnerOutput attempt id data => exact follows_of_part (follows_appendRunnerStdout attempt id data)
  | runnerExited id attempt result err =>
    exact follows_of_part (follows_runnerExitedForAttempt id attempt result err)
  | workflowJobInProgress job => exact follows_of_part (follows_workflowJobInProgress job)
  | workflowJobCompleted job => exact follows_of_part (follows_workflowJobCompleted job)
  | retryRunner id => exact follows_of_part (follows_retryRunner id)
  | deleteRunner id =>
    exact follows_of_part (follows_seq (follows_stopRunner id {} .manualStop)
      fun _ _ _ _ => Outline.follows_pure trivial)
  | recoverRunner id => exact follows_of_part (follows_recoverRunner id)
  | sweepOnce => exact follows_of_part follows_sweepOnce
  | reconcileOnce => exact follows_of_part follows_reconcileOnce

theorem holds_fresh (i : Nat) (s : State) : Holds i {} s := by
  constructor <;> simp

theorem base_sound : (baseReading cfg).outline.Sound fun _ => {} where
  serve hs hκ hm hok h := base_serve hs hκ hm hok h
  stable hij _ _ he hκ := hκ.stable hij he
  fresh_holds _ _ := holds_fresh _ _
  restart_inv hs := hs
  follows := follows_program

end CiRunner.Lifecycle
