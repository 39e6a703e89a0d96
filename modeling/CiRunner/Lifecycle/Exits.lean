import CiRunner.Lifecycle.StopRetries

/-! The exit of a runner that has taken no job. If the runner can be removed from GitHub
at once, the request goes back to the queue for its own job. If not, the stop is left to
the sweeper, which does not know that no job was taken: the request then ends completed
or failed. -/

namespace CiRunner.Lifecycle

open Threads Tables CiRunner.State Text

variable {cfg : Settings} {i : Nat} {id : String} {allowed : Call → Choice → Prop}

/-! ### What is written -/

/-- The request is back in the queue for its own job, with nothing left of the runner. -/
structure BackInQueue (r r' : RunnerState) : Prop where
  status : r'.status = .queued
  job : r'.workflowJobID = r.workflowJobID
  assigned : r'.assignedJobID = 0 ∧ r'.assignedJobName = ""
  sandbox : r'.sandboxID = "" ∧ r'.processPID = 0
  source : r'.terminationSource = none ∧ r'.runnerExitCode = none
  retries : r'.retryCount = r.retryCount + 1

/-- A copy of the row of a request whose runner has taken no job. -/
structure Jobless (id : String) (r st : RunnerState) : Prop extends Copies id r st where
  own : st.workflowJobID ≠ 0
  assigned : st.assignedJobID = 0 ∧ st.assignedJobName = ""
  retries : st.retryCount = r.retryCount

theorem retryRunnerExitedWithoutJob_spec {r st : RunnerState} (h : Jobless id r st)
    (hbudget : r.retryCount < cfg.retryMaxAttempts) (now : Time) :
    (retryRunnerExitedWithoutJob cfg st now).id = st.id ∧
      (retryRunnerExitedWithoutJob cfg st now).version = st.version ∧
      BackInQueue r (retryRunnerExitedWithoutJob cfg st now) := by
  have hcount : st.retryCount < cfg.retryMaxAttempts := by rw [h.retries]; exact hbudget
  have hdefer : isQueueDeferFailure "runner_exited_without_job" = false := by decide
  have hfailure : applyFailure cfg st .runnerExit (.exitedWithoutJob st.error) true now =
      requeueForRetry { st.clearLease with
        error := (Err.exitedWithoutJob st.error).text
        failureStage := some .runnerExit
        failureReason := "runner_exited_without_job"
        lastErrorCode := "runner_exited_without_job"
        lastErrorMessage := (Err.exitedWithoutJob st.error).text
        lastErrorRetryable := true
        sandboxID := ""
        processPID := 0
        completedAt := 0 } (st.retryCount + 1) (nextRetryAt cfg (st.retryCount + 1) now) := by
    have hretry : st.clearLease.retryCount = st.retryCount := rfl
    simp only [applyFailure, classifyRetryableError, hdefer, hretry, hcount, Bool.and_self,
      Bool.and_false, Bool.false_eq_true, decide_true, if_true, if_false]
  have hskip : ¬(st.workflowJobID = 0 ∨ st.assignedJobID ≠ 0 ∨ st.assignedJobName ≠ "") := by
    simp [h.own, h.assigned]
  rw [retryRunnerExitedWithoutJob, if_neg hskip, hfailure]
  exact ⟨rfl, rfl, rfl, h.job, h.assigned, ⟨rfl, rfl⟩, ⟨rfl, rfl⟩, congrArg (· + 1) h.retries⟩

theorem BackInQueue.written {r fin current : RunnerState} (h : BackInQueue r fin)
    (hjob : current.workflowJobID = r.workflowJobID) (now : Time) :
    BackInQueue r (fin.written current now) := by
  have hstamp : fin.applyStateTimestamps now = fin := by
    simp only [RunnerState.applyStateTimestamps, h.status]
  simp only [RunnerState.written, hstamp]
  exact ⟨h.status, hjob, h.assigned, h.sandbox, h.source, h.retries⟩

theorem BackInQueue.of_row {r r' fin : RunnerState} (h : BackInQueue r' fin)
    (hjob : r'.workflowJobID = r.workflowJobID) (hretries : r'.retryCount = r.retryCount) :
    BackInQueue r fin :=
  ⟨h.status, h.job.trans hjob, h.assigned, h.sandbox, h.source, by rw [h.retries, hretries]⟩

/-! ### The clean-up -/

/-- The remote requests that an exit makes come out well, and the runner is not busy. -/
def exitAllows : Call → Choice → Prop
  | .runnerBusy, x => x.err = none ∧ x.flag = false
  | c, x => StopOutcome.succeeds.allows c x

theorem storeWorks_exitAllows : StoreWorks exitAllows := ⟨fun _ _ h => h, fun _ _ _ h => h⟩

section Programs

variable {s : State} {r st : RunnerState}

theorem ends_cleanupGitHubRunner {α : Type} {Q : α → State → Prop}
    {k : Option Err → Prog Reply α} (hk : (machine cfg).Ends i exitAllows Q (k none) s) :
    (machine cfg).Ends i exitAllows Q (cleanupGitHubRunner st >>= k) s := by
  unfold cleanupGitHubRunner
  split
  · exact hk
  · apply Machine.ends_ask.mpr
    intro x hx
    refine ⟨x.err, s, rfl, ?_⟩
    rw [show x.err = none from hx]
    exact hk

theorem ends_exitFinal (hs : Holding i id r s) (h : Jobless id r st)
    (hbudget : r.retryCount < cfg.retryMaxAttempts) (now : Time) :
    (machine cfg).Ends i exitAllows (fun _ u => ∃ r', Holding i id r' u ∧ BackInQueue r r')
      (writeOrLog .exitFinal (retryRunnerExitedWithoutJob cfg st now)) s := by
  obtain ⟨hid, hversion, hback⟩ := retryRunnerExitedWithoutJob_spec h hbudget now
  generalize retryRunnerExitedWithoutJob cfg st now = fin at hid hversion hback
  apply ends_writeState storeWorks_exitAllows hs (by rw [hid]; exact h.id_eq)
    (hversion.trans h.version)
  intro at' t ht
  exact Machine.ends_done.mpr ⟨_, ht, hback.written rfl at'⟩

theorem jobless_written (h : Jobless id r st) (hstatus : st.status = .stopping) (now : Time) :
    Jobless id (st.written r now) (nextVersion st) ∧
      (st.written r now).workflowJobID = r.workflowJobID ∧
      (st.written r now).retryCount = r.retryCount := by
  have hretries : (st.written r now).retryCount = st.retryCount := by
    simp only [RunnerState.written, RunnerState.applyStateTimestamps, hstatus]
  exact ⟨⟨h.toCopies.written, h.own, h.assigned, hretries.symm⟩, rfl, hretries.trans h.retries⟩

theorem ends_finishError (hs : Holding i id r s) (h : Jobless id r st)
    (hbudget : r.retryCount < cfg.retryMaxAttempts) :
    (machine cfg).Ends i exitAllows (fun _ u => ∃ r', Holding i id r' u ∧ BackInQueue r r')
      (finishError cfg st) s := by
  apply (ends_stopSandboxOf (fun _ _ hx => hx) hs).bind
  rintro a u ⟨rfl, hu⟩
  apply ends_now
  intro now
  apply ends_cleanupGitHubRunner
  have hst : Jobless id r { st with status := .failed } :=
    ⟨⟨h.id_eq, h.version, h.job⟩, h.own, h.assigned, h.retries⟩
  exact ends_exitFinal hu hst hbudget now

theorem ends_finishExit (hs : Holding i id r s) (h : Jobless id r st)
    (hbudget : r.retryCount < cfg.retryMaxAttempts) {runnerFailed : Bool}
    (hstage : runnerFailed = true → st.failureStage = some .runnerExit) :
    (machine cfg).Ends i exitAllows (fun _ u => ∃ r', Holding i id r' u ∧ BackInQueue r r')
      (finishExit cfg st runnerFailed) s := by
  apply (ends_stopSandboxOf (fun _ _ hx => hx) hs).bind
  rintro a u ⟨rfl, hu⟩
  apply ends_now
  intro now
  cases runnerFailed with
  | true =>
    apply ends_cleanupGitHubRunner
    have hst : Jobless id r { st with status := .failed } :=
      ⟨⟨h.id_eq, h.version, h.job⟩, h.own, h.assigned, h.retries⟩
    unfold finishExit.finish
    rw [if_pos (.inr ⟨rfl, hstage rfl⟩)]
    exact ends_exitFinal hu hst hbudget now
  | false =>
    apply ends_cleanupGitHubRunner
    have hst : Jobless id r { st with status := .completed, completedAt := now } :=
      ⟨⟨h.id_eq, h.version, h.job⟩, h.own, h.assigned, h.retries⟩
    unfold finishExit.finish
    rw [if_pos (.inl rfl)]
    exact ends_exitFinal hu hst hbudget now

theorem ends_exitStopping (hs : Holding i id r s) (h : Jobless id r st)
    (hstatus : st.status = .stopping) (hbudget : r.retryCount < cfg.retryMaxAttempts)
    {k : RunnerState → Prog Reply Unit}
    (hk : ∀ row u, Holding i id row u → Jobless id row (nextVersion st) →
      row.retryCount < cfg.retryMaxAttempts →
      (machine cfg).Ends i exitAllows (fun _ v => ∃ r', Holding i id r' v ∧ BackInQueue row r')
        (k (nextVersion st)) u) :
    (machine cfg).Ends i exitAllows (fun _ u => ∃ r', Holding i id r' u ∧ BackInQueue r r')
      (do match ← ask (.writeState .exitStopping st) with
        | none => pure ()
        | some _ => k (nextVersion st)) s := by
  apply ends_writeState storeWorks_exitAllows hs h.id_eq h.version
  intro now t ht
  obtain ⟨hnext, hjob, hretries⟩ := jobless_written h hstatus now
  apply (hk _ t ht hnext (by rw [hretries]; exact hbudget)).mono
  rintro _ u ⟨r', hu, hback⟩
  exact ⟨r', hu, hback.of_row hjob hretries⟩

theorem Jobless.setTerminationSource (h : Jobless id r st) (source : TerminationSource) :
    Jobless id r (setTerminationSource st source) := by
  unfold Lifecycle.setTerminationSource
  split
  · exact h
  · exact ⟨⟨h.id_eq, h.version, h.job⟩, h.own, h.assigned, h.retries⟩

theorem ends_cleanupAfterError (hs : Holding i id r s) (h : Jobless id r st)
    (hbudget : r.retryCount < cfg.retryMaxAttempts) (err : Err) :
    (machine cfg).Ends i exitAllows (fun _ u => ∃ r', Holding i id r' u ∧ BackInQueue r r')
      (cleanupAfterError cfg st err) s := by
  apply ends_now
  intro now
  have hmarked := h.setTerminationSource .processExit
  refine ends_exitStopping hs ?_ rfl hbudget fun row u hu hrow hcount =>
    ends_finishError hu hrow hcount
  exact ⟨⟨hmarked.id_eq, hmarked.version, hmarked.job⟩, hmarked.own, hmarked.assigned,
    hmarked.retries⟩

theorem ends_cleanupAfterExit (hs : Holding i id r s) (h : Jobless id r st)
    (hbudget : r.retryCount < cfg.retryMaxAttempts) (result : ExitResult) :
    (machine cfg).Ends i exitAllows (fun _ u => ∃ r', Holding i id r' u ∧ BackInQueue r r')
      (cleanupAfterExit cfg st result) s := by
  apply ends_now
  intro now
  have hmarked := h.setTerminationSource .processExit
  generalize decide (result.exitCode ≠ 0) = runnerFailed
  cases runnerFailed with
  | false =>
    refine ends_exitStopping (k := fun st => finishExit cfg st false) hs ?_ ?_ hbudget ?_
    · exact ⟨⟨hmarked.id_eq, hmarked.version, hmarked.job⟩, hmarked.own, hmarked.assigned,
        hmarked.retries⟩
    · rfl
    · exact fun row u hu hrow hcount => ends_finishExit hu hrow hcount nofun
  | true =>
    refine ends_exitStopping (k := fun st => finishExit cfg st true) hs ?_ ?_ hbudget ?_
    · exact ⟨⟨hmarked.id_eq, hmarked.version, hmarked.job⟩, hmarked.own, hmarked.assigned,
        hmarked.retries⟩
    · rfl
    · exact fun row u hu hrow hcount => ends_finishExit hu hrow hcount fun _ => rfl

theorem ends_retainWorkflowJobResultAfterRunnerExit (hlock : s.locks id = none)
    (hf : s.rows.find (sanitizeID id) = some r) (hqueued : r.status = .queued) :
    (machine cfg).Ends i exitAllows (fun _ t => t.locks id = none ∧ t.rows = s.rows)
      (retainWorkflowJobResultAfterRunnerExit id) s := by
  unfold retainWorkflowJobResultAfterRunnerExit
  refine (ends_withLock (Q := fun a t => a = some r ∧ t.locks id = none ∧ t.rows = s.rows)
    hlock ?_).bind ?_
  · apply Machine.ends_call.mpr
    intro x hx
    refine ⟨some r, { s with locks := Function.update s.locks id (some i) }, ?_,
      Machine.ends_done.mpr ⟨Function.update_self .., rfl, Function.update_self .., rfl⟩⟩
    show some (if x.fails then none else s.rows.find (sanitizeID id), _) = _
    rw [show x.fails = false from hx, hf]
    rfl
  · rintro _ t ⟨rfl, hfree, hrows⟩
    simp only [hqueued, reduceCtorEq, decide_false, Bool.or_self, Bool.false_and, Bool.not_false,
      true_or, if_true]
    exact Machine.ends_done.mpr ⟨hfree, hrows⟩

theorem ends_cleanupExited (hs : Holding i id r s) (h : Jobless id r st)
    (hbudget : r.retryCount < cfg.retryMaxAttempts) (result : ExitResult) (err : Option Err) :
    (machine cfg).Ends i exitAllows (fun _ t => t.locks id = none ∧ ∃ r',
      t.rows.find (sanitizeID id) = some r' ∧ BackInQueue r r')
      (cleanupExited cfg id st result err) s := by
  have hrest : ∀ (a : Unit) u, (∃ r', Holding i id r' u ∧ BackInQueue r r') →
      (machine cfg).Ends i exitAllows (fun _ t => t.locks id = none ∧ ∃ r',
        t.rows.find (sanitizeID id) = some r' ∧ BackInQueue r r') (do
          let _ ← ask (.unlock id)
          retainWorkflowJobResultAfterRunnerExit id) u := by
    rintro _ u ⟨r', hu, hback⟩
    apply ends_unlock hu.lock
    refine (ends_retainWorkflowJobResultAfterRunnerExit
      (s := { u with locks := Function.update u.locks id none }) (Function.update_self ..) hu.row
      hback.status).mono ?_
    rintro _ t ⟨hfree, hrows⟩
    exact ⟨hfree, r', by rw [hrows]; exact hu.row, hback⟩
  cases err with
  | some e => exact (ends_cleanupAfterError hs h hbudget e).bind hrest
  | none => exact (ends_cleanupAfterExit hs h hbudget result).bind hrest

/-- The row with the version of the runner, if it was not known. -/
theorem jobless_setEffectiveRunnerVersion (hf : s.rows.find (sanitizeID id) = some r)
    (hjob : r.workflowJobID ≠ 0) (hassigned : r.assignedJobID = 0 ∧ r.assignedJobName = "")
    (result : ExitResult) : Jobless id r (setEffectiveRunnerVersion r result) := by
  have hid : sanitizeID r.id = sanitizeID id := by
    rw [Table.key_of_find hf, sanitizeID_sanitizeID]
  unfold setEffectiveRunnerVersion
  split <;> exact ⟨⟨hid, rfl, rfl⟩, hjob, hassigned, rfl⟩

theorem ends_githubRunnerBusy {α : Type} {Q : α → State → Prop}
    {k : Except Err Bool → Prog Reply α}
    (hk : (machine cfg).Ends i exitAllows Q (k (.ok false)) s) :
    (machine cfg).Ends i exitAllows Q (githubRunnerBusy st >>= k) s := by
  unfold githubRunnerBusy
  split
  · exact hk
  · apply Machine.ends_ask.mpr
    intro x hx
    refine ⟨.ok false, s, ?_, hk⟩
    show serve cfg i .runnerBusy x s = _
    simp only [serve, hx.1, hx.2]

end Programs

/-- The runner of a request ends, with any exit code or with an error of its stream, before it has
taken a job, and GitHub does not report it as busy. If the sandbox is stopped and the first removal
from GitHub succeeds, the request is queued again for its own job. -/
theorem exit_without_job_requeues {r : RunnerState} {s : State} (attempt : RunnerAttemptIdentity)
    (result : ExitResult) (err : Option Err) (hid : r.id ≠ "") (hlock : s.locks id = none)
    (hf : s.rows.find (sanitizeID id) = some r) (hrunning : r.status = .running)
    (hjob : r.workflowJobID ≠ 0) (hassigned : r.assignedJobID = 0 ∧ r.assignedJobName = "")
    (hattempt : attempt.matchesState r = true)
    (hbudget : r.retryCount < cfg.retryMaxAttempts) :
    (machine cfg).Ends i exitAllows (fun _ t => t.locks id = none ∧ ∃ r',
      t.rows.find (sanitizeID id) = some r' ∧ BackInQueue r r')
      (runnerExitedForAttempt cfg id attempt result err) s := by
  have hkey : sanitizeID id ≠ "" := by
    rw [← Table.key_of_find hf]
    exact hid
  have hstarted : isStarted r = true := by simp [isStarted, hrunning]
  have hjobless := jobless_setEffectiveRunnerVersion hf hjob hassigned result
  have hheld : Holding i id r { s with locks := Function.update s.locks id (some i) } :=
    ⟨Function.update_self .., hf, hkey⟩
  apply ends_lock hlock
  apply ends_readState storeWorks_exitAllows hheld
  simp only [hattempt, hstarted, Bool.not_true, Bool.and_false, Bool.false_eq_true, if_false]
  split
  · exact ends_cleanupExited hheld hjobless hbudget result err
  · -- the lock is given up while GitHub is asked, and taken again
    apply ends_unlock hheld.lock
    apply ends_githubRunnerBusy
    apply ends_lock (Function.update_self ..)
    have hheld' : Holding i id r { s with
        locks := Function.update (Function.update (Function.update s.locks id (some i)) id none) id
          (some i) } := ⟨Function.update_self .., hf, hkey⟩
    apply ends_readState storeWorks_exitAllows hheld'
    simp only [hattempt, hstarted, Bool.not_true, Bool.false_eq_true, if_false]
    exact ends_cleanupExited hheld' hjobless hbudget result err

/-- A running request whose runner waits for a job. -/
def idleRow : RunnerState where
  id := "1"
  status := .running
  repositoryFullName := "o/r"
  runnerName := "e2b-1"
  sandboxID := "s1"
  processPID := 7
  workflowJobID := 1

theorem exit_without_job_requeues_idle : (machine oneRunner).Ends 0 exitAllows
    (fun _ t => t.locks "1" = none ∧ ∃ r', t.rows.find (sanitizeID "1") = some r' ∧
      BackInQueue idleRow r')
    (runnerExitedForAttempt oneRunner "1" ⟨"s1", 7⟩ {} none)
    (State.initial (Table.empty.insert idleRow)) :=
  exit_without_job_requeues ⟨"s1", 7⟩ {} none (by decide) rfl (by decide +kernel) rfl (by decide)
    ⟨rfl, rfl⟩ (by decide +kernel) (by decide)

/-- A request is started for the job and waits for it. -/
def idling : List (Decision Choice Op) :=
  .start (.enqueueWorkflowJob { id := "1", repositoryFullName := "o/r", jobID := 1 }) ::
    calls 0 3 {} ++ .start .processQueuedRequests ::
      calls 1 23 { ticks := 1, job := { id := 1, status := "queued" } } ++
    [.run 1 { ticks := 2, result := some sandboxOne }] ++ calls 1 6 { ticks := 3 }

/-- The runner exits, its first removal from GitHub runs into a timeout, and the sweeper's succeeds.
Whenever it is asked, GitHub reports the job as queued. -/
def lostExit : List (Decision Choice Op) :=
  let queued : WorkflowJob := { id := 1, status := "queued" }
  .start (.runnerExited "1" ⟨"s1", 7⟩ {} none) :: calls 2 6 { ticks := 8 } ++
    .run 2 { ticks := 9, err := some (.deadlineExceeded "timed out") } ::
    calls 2 10 { ticks := 10, job := queued } ++
    .start .sweepOnce :: calls 3 12 { ticks := 400, job := queued }

/-- The request has completed, and its job is still queued. -/
theorem exit_without_job_lost : ∃ c c' r r', (machine oneRunner).Reachable .empty c ∧
    c.state.rows.find "1" = some r ∧ r.status = .running ∧ r.workflowJobID = 1 ∧
    r.assignedJobID = 0 ∧ r.assignedJobName = "" ∧ r.retryCount + 1 < oneRunner.retryMaxAttempts ∧
    (machine oneRunner).exec c lostExit = some c' ∧ c'.state.rows.find "1" = some r' ∧
    r'.status = .completed := by
  obtain ⟨c, hr, hp⟩ := Machine.exists_reachable_of_exec (M := machine oneRunner) (s := .empty)
    idling (fun c => ((machine oneRunner).exec c lostExit).any fun c' =>
      testRow "1" (fun _ r r' => r.status = .running && r.workflowJobID = 1 &&
        r.assignedJobID = 0 && r.assignedJobName = "" &&
        r.retryCount + 1 < oneRunner.retryMaxAttempts && r'.status = .completed) c c')
    (by decide +kernel)
  obtain ⟨c', hc', hp⟩ := (Option.any_eq_true ..).mp hp
  obtain ⟨r, r', hf, hf', hrow⟩ := of_testRow hp
  simp only [Bool.and_eq_true, decide_eq_true_eq] at hrow
  obtain ⟨⟨⟨⟨⟨hrunning, hjob⟩, hassigned⟩, hname⟩, hbudget⟩, hcompleted⟩ := hrow
  exact ⟨c, c', r, r', hr, hf, hrunning, hjob, hassigned, hname, hbudget, hc', hf', hcompleted⟩

end CiRunner.Lifecycle
