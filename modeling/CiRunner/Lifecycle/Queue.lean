import CiRunner.Lifecycle.Runs

/-! Queued requests. A row that is back in the queue has nothing left of earlier
attempts, in the runs in which the requeues that clear only a part of a row find the
rest of it empty; a row in creation then has the time of its own attempt. -/

namespace CiRunner.Lifecycle

open Threads Tables CiRunner.State

/-! ### Fresh rows -/

/-- Nothing is left of earlier attempts: a queued row is empty, and a row in creation has only the
time at which its attempt began and its service. -/
structure Fresh (attemptAt : Time) (c : Core) : Prop where
  queued : c.status = .queued → c = {}
  creating : c.status = .creating → attemptAt ≠ 0 ∧
    ∃ service, c = { status := .creating, creatingAt := attemptAt, service := service }

section Fresh

variable {t now : Time} {c d : Core}

theorem fresh_empty (t : Time) : Fresh t {} := ⟨fun _ => rfl, nofun⟩

theorem fresh_of_status {status : Status} (h : d.status = status) (hq : status ≠ .queued)
    (hc : status ≠ .creating) : Fresh t d :=
  ⟨fun e => absurd (h.symm.trans e) hq, fun e => absurd (h.symm.trans e) hc⟩

theorem Fresh.stamp (h : Fresh t c) : Fresh t (c.stamp now) := by
  constructor
  · intro hs
    rw [status_stamp] at hs
    rw [stamp_queued now hs]
    exact h.queued hs
  · intro hs
    rw [status_stamp] at hs
    obtain ⟨ht, service, hc⟩ := h.creating hs
    refine ⟨ht, service, ?_⟩
    rw [stamp_creating now hs, hc]
    simp [RunnerState.firstTime, ht]

theorem fresh_stamp_of_status {status : Status} (h : d.status = status) (hq : status ≠ .queued)
    (hc : status ≠ .creating) : Fresh t (d.stamp now) :=
  fresh_of_status ((status_stamp d now).trans h) hq hc

end Fresh

/-! ### Writers that clear a part of a row -/

namespace Writer

/-- The writers that keep the reason for which an earlier runner ended. -/
def keepsReason : Writer → Bool
  | .failStart _ | .retryOrFail => true
  | _ => false

def snapshots : Writer → Bool
  | .snapshot _ => true
  | _ => false

/-- The writer that keeps the service of an earlier attempt. -/
def keepsService : Writer → Bool
  | .jobCheckDeferred _ => true
  | _ => false

end Writer

/-- The row that `st` is written over has nothing that the write leaves in the queue: no requeue
after the clean-up of a one-time configuration, no end of an earlier runner under a failure, no
snapshot for a queued row, no service under a check of the job. -/
def LeavesNothing (w : Writer) (st r : RunnerState) : Prop :=
  w ≠ .jitRequeued ∧
  (w.keepsReason = true → st.status = .queued →
    r.terminationSource = none ∧ r.runnerExitCode = none) ∧
  (w.snapshots = true → r.status = .queued → st.service.trim = {}) ∧
  (w.keepsService = true → st.status = .queued → r.service.trim = {})

instance (w : Writer) (st r : RunnerState) : Decidable (LeavesNothing w st r) :=
  inferInstanceAs (Decidable (_ ∧ _ ∧ _ ∧ _))

theorem Site.fresh {stopped : List String} {w : Writer} {st r : RunnerState} {t now : Time}
    (h : Site stopped (core r) (core st) w) (hr : Fresh t (core r)) (hw : LeavesNothing w st r)
    (hcreating : w ≠ .creating) : Fresh t ((core st).stamp now) := by
  obtain ⟨hjit, hreason, hsnapshot, hservice⟩ := hw
  have hempty : core st = {} → Fresh t ((core st).stamp now) := by
    intro he
    rw [he]
    exact (fresh_empty t).stamp
  cases w with
  | creating => exact absurd rfl hcreating
  | jitRequeued => exact absurd rfl hjit
  | running | reconnect => exact fresh_stamp_of_status h.2.1 (by decide) (by decide)
  | skipped | mismatchCompleted => exact fresh_stamp_of_status h.2.status_eq (by decide) (by decide)
  | failStart | retryOrFail =>
    obtain hs | he := h.outcome
    · exact fresh_stamp_of_status hs (by decide) (by decide)
    · obtain ⟨hts, hec⟩ := hreason rfl (congrArg Core.status he)
      apply hempty
      rw [he]
      simp [core, hts, hec]
  | snapshot =>
    obtain ⟨service, he⟩ := h
    apply Fresh.stamp
    rw [he]
    constructor
    · intro hs
      have hst : (core st).service = {} := hsnapshot rfl hs
      rw [he] at hst
      rw [hr.queued hs]
      simp only at hst
      rw [hst]
    · intro hs
      obtain ⟨ht, service', hc⟩ := hr.creating hs
      exact ⟨ht, service, by rw [hc]⟩
  | jobCheckDeferred =>
    obtain ⟨hs, -, -, he | h⟩ := h
    · obtain ⟨-, service, hc⟩ := hr.creating hs
      have hsv : (core r).service = {} := hservice rfl (congrArg Core.status he)
      rw [hc] at hsv
      apply hempty
      rw [he, hc]
      simp only at hsv
      rw [hsv]
    · exact fresh_stamp_of_status h.status_eq (by decide) (by decide)
  | deferQueued =>
    apply hempty
    rw [h.2, hr.queued h.1]
  | deferCreating =>
    obtain ⟨hs, -, he⟩ := h
    obtain ⟨-, service, hc⟩ := hr.creating hs
    apply hempty
    rw [he, hc]
  | jitRetained | stopping | forceStopping | stopFailed | forceStopFailed | stopCleanupFailed
  | forceFailed | jitFailed | completeObserved =>
    exact fresh_stamp_of_status h.status_eq (by decide) (by decide)
  | jitInterrupted | exitStopping | exitCleanupRetry | stopRetry | stopCleanupRetry
  | forceCleanupRetry => exact fresh_stamp_of_status h.2.status_eq (by decide) (by decide)
  | jobCheckCleared | jobStarted | jobInProgress | exitJobResult | stopConflictResult
  | stopCompletedResult | recoverLease | wake =>
    have he : core st = core r := h
    rw [he]
    exact hr.stamp
  | exitBusy => exact fresh_stamp_of_status h.2.2.2.status_eq (by decide) (by decide)
  | exitFinal =>
    obtain h | ⟨-, he | hs | h, -⟩ := h
    · exact fresh_stamp_of_status h.status_eq (by decide) (by decide)
    · exact hempty he
    · exact fresh_stamp_of_status hs (by decide) (by decide)
    · exact fresh_stamp_of_status h.status_eq (by decide) (by decide)
  | lateExit => exact fresh_stamp_of_status h.2.2.2.status_eq h.1 h.2.1
  | requeueInterrupted =>
    obtain ⟨-, service, hc⟩ := hr.creating h.1
    apply hempty
    rw [h.2, hc]
  | stopFinal =>
    obtain ⟨-, h | h⟩ := h <;>
      exact fresh_stamp_of_status h.status_eq (by decide) (by decide)
  | mismatchKept =>
    obtain ⟨hs | hs, h⟩ := h <;>
      exact fresh_stamp_of_status (h.status_eq.trans hs) (by decide) (by decide)
  | mismatchRequeued => exact hempty h.2
  | historical => exact hempty h.2.2

theorem Site.fresh_creating {stopped : List String} {c d : Core} {t now : Time}
    (h : Site stopped c d .creating) (hc : Fresh t c) (hnow : now ≠ 0) :
    Fresh now (d.stamp now) := by
  obtain ⟨hq, rfl⟩ := h
  rw [hc.queued hq, stamp_creating now rfl]
  refine ⟨nofun, fun _ => ⟨hnow, {}, ?_⟩⟩
  simp [RunnerState.firstTime]

/-! ### Runs with clean requeues -/

variable (cfg : Settings)

/-- No claim is overtaken, and a write leaves nothing of an earlier attempt in the queue. -/
def CleanRequeues : (machine cfg).Condition := fun i c x s =>
  NotOvertaken cfg i c x s ∧ WritesFind cfg (fun _ _ w st r => LeavesNothing w st r) i c x s

instance (i : Nat) (c : Call) (x : Choice) (s : State) : Decidable (CleanRequeues cfg i c x s) :=
  inferInstanceAs (Decidable (_ ∧ _))

def RowsFresh (s : State) : Prop := ∀ k r, s.rows.find k = some r → Fresh (s.attemptAt k) (core r)

variable {cfg}

theorem attemptAt_record {w : Writer} (hw : w ≠ .creating) (s : State) (key : String)
    (now : Time) : (s.record w key now).attemptAt = s.attemptAt := by
  cases w with
  | creating => exact absurd rfl hw
  | reconnect n => cases n <;> rfl
  | _ => rfl

theorem Rewrite.fresh {i : Nat} {κ : Know} {x : Choice} {c : Call} {s : State}
    {r r' : RunnerState} (h : Rewrite κ x c r r') (hok : CleanRequeues cfg i c x s)
    (hx : x.fails = false) (hf : s.rows.find r.id = some r)
    (hr : Fresh (s.attemptAt r.id) (core r)) :
    Fresh ((recorded s x r.id c).attemptAt r.id) (core r') := by
  cases h with
  | @write w st b _ _ _ _ hkey hversion hsite _ =>
    have hleaves : LeavesNothing w st r := hok.2.row hx hf hkey hversion
    rw [core_written]
    by_cases hw : w = .creating
    · subst hw
      have hnow : x.now ≠ 0 := Nat.succ_ne_zero _
      simpa [recorded, State.record] using hsite.fresh_creating hr hnow
    · simp only [recorded, attemptAt_record hw]
      exact hsite.fresh hr hleaves hw
  | claim => exact hr
  | release => exact hr
  | retry =>
    rw [core_retried]
    exact fresh_empty _

theorem NewRow.fresh {r : RunnerState} (h : NewRow r) (t : Time) : Fresh t (core r) := by
  obtain hc | ⟨hs, -⟩ := h.status
  · rw [hc]
    exact fresh_empty t
  · exact fresh_of_status hs nofun nofun

theorem rowsFresh_served {i : Nat} {κ : Know} {x : Choice} {c : Call} {s s' : State}
    (h : Served κ x s c s') (hok : CleanRequeues cfg i c x s) (hs : RowsFresh s) :
    RowsFresh s' := by
  intro k r hr
  obtain ⟨hf, ht⟩ | ⟨-, hnew, -⟩ | ⟨cur, hf, rfl, hx, hrow, ht⟩ := h.row hr
  · have htime : s'.attemptAt k = s.attemptAt k := congrArg Trail.attemptAt ht
    rw [htime]
    exact hs k r hf
  · exact hnew.fresh _
  · have htime : s'.attemptAt cur.id = (recorded s x cur.id c).attemptAt cur.id :=
      congrArg Trail.attemptAt ht
    rw [htime]
    exact hrow.fresh hok hx hf (hs _ cur hf)

/-- The sweeper's test on a fresh row in creation counts from the start of its own attempt. -/
theorem Fresh.createTimedOut {t : Time} {r : RunnerState} (h : Fresh t (core r))
    (hs : r.status = .creating) :
    r.creatingAt = t ∧ ∀ now, createTimedOut cfg r now = true →
      cfg.sandboxCreateTimeout < now - t := by
  obtain ⟨-, service, hc⟩ := h.creating hs
  have ht : r.creatingAt = t := congrArg Core.creatingAt hc
  refine ⟨ht, fun now hnow => ?_⟩
  simp only [Lifecycle.createTimedOut, Bool.and_eq_true, decide_eq_true_eq] at hnow
  rw [← ht]
  exact hnow.2

/-- In every run whose steps all meet the condition, a queued row has nothing left of an earlier
attempt; a row in creation has the time of its own creating write, and the sweeper finds it timed
out only once its own attempt has used up the time. -/
theorem queued_rows_clean {c : Config Reply State}
    (hr : (machine cfg).Reaches (CleanRequeues cfg) .empty c) {k : String} {r : RunnerState}
    (hf : c.state.rows.find k = some r) :
    (r.status = .queued → r.sandboxID = "" ∧ r.processPID = 0 ∧ r.creatingAt = 0 ∧
      r.runningAt = 0 ∧ r.stoppingAt = 0 ∧ r.terminationSource = none ∧
      r.runnerExitCode = none ∧ r.environment = {} ∧ r.service = {}) ∧
    (r.status = .creating → r.creatingAt = c.state.attemptAt k ∧
      ∀ now, createTimedOut cfg r now = true →
        cfg.sandboxCreateTimeout < now - c.state.attemptAt k) := by
  have himp : ∀ i c x s, CleanRequeues cfg i c x s → NotOvertaken cfg i c x s :=
    fun _ _ _ _ hok => hok.1
  have hfresh : RowsFresh c.state := by
    apply state_invariant himp (J := RowsFresh) _ _ (fun hs => hs) hr
    · intro k r hr
      cases hr
    · exact fun _ _ _ hok _ hserved hs => rowsFresh_served hserved hok hs
  have hrow := rowsOk_of_reaches himp hr k r hf
  have hcore := hfresh k r hf
  constructor
  · intro hq
    have he := hcore.queued hq
    have henv : r.environment.trim = {} := congrArg Core.environment he
    have hserv : r.service.trim = {} := congrArg Core.service he
    exact ⟨congrArg Core.sandboxID he, congrArg Core.processPID he, congrArg Core.creatingAt he,
      congrArg Core.runningAt he, congrArg Core.stoppingAt he,
      congrArg Core.terminationSource he, congrArg Core.runnerExitCode he,
      hrow.environment.symm.trans henv, hrow.service.symm.trans hserv⟩
  · exact hcore.createTimedOut

/-- A runner exits before it has taken a job, and its request is back in the queue. -/
theorem queued_rows_clean_exit : ∃ c r,
    (machine oneRunner).Reaches (CleanRequeues oneRunner) .empty c ∧
    c.state.rows.find "1" = some r ∧ r.status = .queued ∧ c.state.attempts "1" = 1 ∧
    r.creatingAt = 0 ∧ r.terminationSource = none ∧ r.runnerExitCode = none := by
  obtain ⟨c, c', hr, hm, h, hp⟩ := Machine.exists_step_of_execMeeting (M := machine oneRunner)
    (CleanRequeues oneRunner) (s := .empty)
    (provisioned 5 ++ calls 1 6 { ticks := 3 } ++
      .start (.runnerExited "1" ⟨"s1", 7⟩ {} none) :: calls 2 6 { ticks := 8 })
    (.run 2 { ticks := 9 })
    (fun c c' => c'.state.attempts "1" = 1 &&
      testRow "1" (fun _ r r' => r.status = .stopping && r'.status = .queued) c c')
    (by decide +kernel)
  simp only [Bool.and_eq_true, decide_eq_true_eq] at hp
  obtain ⟨r, r', -, hf', hrow⟩ := of_testRow hp.2
  simp only [Bool.and_eq_true, decide_eq_true_eq] at hrow
  have hreach := hr.step hm h
  have hclean := (queued_rows_clean hreach hf').1 hrow.2
  exact ⟨c', r', hreach, hf', hrow.2, hp.1, hclean.2.2.1, hclean.2.2.2.2.2.1,
    hclean.2.2.2.2.2.2.1⟩

/-- The creation of a Windows runner is interrupted by a restart, its registration cannot be
removed at once, and the sweeper removes it later and puts the request back into the queue. -/
def interruptedWindows : List (Decision Choice Op) :=
  let job : WorkflowJob := { id := 5, status := "queued" }
  .start (.enqueueWorkflowJob
      { id := "1", jobID := 5, repositoryFullName := "o/r", labels := ["windows"] }) ::
    calls 0 3 {} ++
  .start .processQueuedRequests :: calls 1 15 { ticks := 1, job := job } ++
  .restart :: .start (.recoverRunner "1") :: calls 2 7 { ticks := 3, job := job } ++
  .run 2 { ticks := 3, flag := true } :: calls 2 4 { ticks := 4 } ++
  .run 2 { ticks := 4, err := some (.message "unreachable") } :: calls 2 2 { ticks := 4 } ++
  .start .sweepOnce :: calls 3 11 { ticks := 500, job := job }

/-- The queued row keeps the time and the termination source of the first attempt; the second
attempt is past its timeout as soon as it begins. -/
theorem requeue_keeps_creating_time :
    (∃ c r, (machine oneRunner).Reachable .empty c ∧ c.state.rows.find "1" = some r ∧
      r.status = .queued ∧ r.creatingAt = 2 ∧ r.terminationSource = some .failureCleanup) ∧
    ∃ c r, (machine oneRunner).Reachable .empty c ∧ c.state.rows.find "1" = some r ∧
      r.status = .creating ∧ c.state.attemptAt "1" = 601 ∧ r.creatingAt = 2 ∧
      createTimedOut oneRunner r 601 = true := by
  constructor
  · obtain ⟨c, hr, hp⟩ := Machine.exists_reachable_of_exec (M := machine oneRunner) (s := .empty)
      interruptedWindows
      (fun c => testRow "1" (fun _ r _ => r.status = .queued && r.creatingAt = 2 &&
        r.terminationSource = some .failureCleanup) c c) (by decide +kernel)
    obtain ⟨r, -, hf, -, hrow⟩ := of_testRow hp
    simp only [Bool.and_eq_true, decide_eq_true_eq] at hrow
    exact ⟨c, r, hr, hf, hrow.1.1, hrow.1.2, hrow.2⟩
  · obtain ⟨c, hr, hp⟩ := Machine.exists_reachable_of_exec (M := machine oneRunner) (s := .empty)
      (interruptedWindows ++ .start .processQueuedRequests :: calls 4 15 { ticks := 600 })
      (fun c => testRow "1" (fun s r _ => r.status = .creating && s.attemptAt "1" = 601 &&
        r.creatingAt = 2 && createTimedOut oneRunner r 601) c c) (by decide +kernel)
    obtain ⟨r, -, hf, -, hrow⟩ := of_testRow hp
    simp only [Bool.and_eq_true, decide_eq_true_eq] at hrow
    exact ⟨c, r, hr, hf, hrow.1.1.1, hrow.1.1.2, hrow.1.2, hrow.2⟩

end CiRunner.Lifecycle
