import CiRunner.Lifecycle.Writes

/-! What the writers of the lifecycle do to the budget of a request: how they count
its retries, what puts it back into the queue without a count, the mark of a
one-time configuration that is still to be removed, and the time of its failure. -/

namespace CiRunner.Lifecycle

open CiRunner.State

/-! ### Rows and writers -/

/-- The request is marked for the removal of its one-time configuration. -/
def Marked (r : RunnerState) : Prop := r.failureReason = "jit_cleanup_pending"

instance (r : RunnerState) : Decidable (Marked r) := inferInstanceAs (Decidable (_ = _))

theorem unmarked_of_empty {r : RunnerState} (h : r.failureReason = "") : ¬ Marked r := by
  rw [Marked, h]
  decide

/-- The failure of a start that leaves the request in the queue however often it was tried. -/
def deferral (st : RunnerState) : Bool :=
  st.lastErrorRetryable && isQueueDeferFailure st.lastErrorCode

/-- The failure came before the creating write. -/
def failsEarly (st : RunnerState) : Bool :=
  st.failureStage = some .profileLookup || st.failureStage = some .profileValidation

/-- The statuses in which the request has not ended and is not being stopped. -/
def live : Status → Bool
  | .queued | .creating | .running => true
  | _ => false

namespace Writer

def fails : Writer → Bool
  | .failStart _ => true
  | _ => false

/-- The writers that end the attempt they write for. -/
def decides : Writer → Bool
  | .failStart _ | .jobCheckDeferred _ | .deferCreating _ => true
  | _ => false

def marks : Writer → Bool
  | .jitRetained _ | .jitInterrupted => true
  | _ => false

/-- The writers that put a request back into the queue and do not count it as a retry. -/
def returns (st : RunnerState) : Writer → Bool
  | .failStart _ => deferral st
  | .jobCheckDeferred _ | .deferCreating _ | .jitRequeued | .requeueInterrupted
  | .mismatchRequeued | .historical => true
  | _ => false

/-- The writers that can put back a request that had ended or was being stopped. -/
def revives : Writer → Bool
  | .failStart _ | .retryOrFail | .exitFinal | .mismatchRequeued | .historical | .jitRequeued =>
    true
  | _ => false

/-- What a writer has looked for in the row. -/
def Finds (b : RunnerState) : Writer → Prop
  | .failStart _ => b.status ≠ .completed ∧ b.status ≠ .stopping
  | .retryOrFail => b.status ≠ .completed ∧ b.status ≠ .failed
  | .jitRequeued => Marked b
  | _ => True

end Writer

/-- The count of retries stays, or goes up where there is room below `m`. -/
def Counts (m count next : Nat) : Prop := next = count ∨ count < m ∧ next = count + 1

/-- What a writer makes of the row `b` that its state `st` is based on. -/
structure Accounts (m : Nat) (b st : RunnerState) (w : Writer) : Prop where
  counts : w ≠ .historical → Counts m b.retryCount st.retryCount
  queued : st.status = .queued → w.returns st = true ∨ st.retryCount = b.retryCount + 1 ∨
    b.status = .queued ∧ w.fails = false
  marked : Marked st → w.marks = true ∨ Marked b
  unmarked : st.status = .queued ∨ st.status = .creating → Marked st →
    b.status = .queued ∨ b.status = .creating
  failedAt : st.status ≠ .failed → st.failedAt = b.failedAt ∨
    st.status = .queued ∧ st.failedAt = 0 ∧ w.revives = true
  live : live st.status = true → live b.status = true ∨ w.revives = true
  finds : w.Finds b

def account (r : RunnerState) : Status × String × Nat × Time :=
  (r.status, r.failureReason, r.retryCount, r.failedAt)

section Accounts

variable {m : Nat} {b st : RunnerState} {w : Writer}

theorem accounts_kept (hw : w.fails = false) (hfinds : w.Finds b) (hs : st.status = b.status)
    (hr : Marked st → Marked b) (hc : st.retryCount = b.retryCount)
    (hf : st.failedAt = b.failedAt) : Accounts m b st w where
  counts _ := .inl hc
  queued h := .inr (.inr ⟨hs.symm.trans h, hw⟩)
  marked h := .inr (hr h)
  unmarked h _ := hs ▸ h
  failedAt _ := .inl hf
  live h := .inl (hs ▸ h)
  finds := hfinds

theorem accounts_same (hw : w.fails = false) (hfinds : w.Finds b)
    (h : account st = account b) : Accounts m b st w := by
  simp only [account, Prod.mk.injEq] at h
  obtain ⟨hs, hr, hc, hf⟩ := h
  exact accounts_kept hw hfinds hs (fun hm => hr.symm.trans hm) hc hf

theorem accounts_started (hfinds : w.Finds b) (hs : st.status = .creating ∨ st.status = .running)
    (hb : live b.status = true)
    (hcreating : st.status = .creating → b.status = .queued ∨ b.status = .creating)
    (hr : Marked st → Marked b) (hc : st.retryCount = b.retryCount)
    (hf : st.failedAt = b.failedAt) : Accounts m b st w where
  counts _ := .inl hc
  queued h := by rw [h] at hs; simp at hs
  marked h := .inr (hr h)
  unmarked h _ := by
    obtain h | h := h
    · rw [h] at hs
      simp at hs
    · exact hcreating h
  failedAt _ := .inl hf
  live _ := .inl hb
  finds := hfinds

theorem accounts_stopping (hfinds : w.Finds b) (hs : st.status = .stopping)
    (hr : Marked st → w.marks = true ∨ Marked b)
    (hc : Counts m b.retryCount st.retryCount) (hf : st.failedAt = b.failedAt) :
    Accounts m b st w where
  counts _ := hc
  queued h := by rw [hs] at h; cases h
  marked := hr
  unmarked h := by rw [hs] at h; simp at h
  failedAt _ := .inl hf
  live h := by rw [hs] at h; cases h
  finds := hfinds

theorem accounts_marked {st' : RunnerState} {now : Time} (hfinds : w.Finds b)
    (h : account st' = account b) : Accounts m b (markRunnerCleanupStarted st' now) w := by
  simp only [account, Prod.mk.injEq] at h
  obtain ⟨-, hr, hc, hf⟩ := h
  exact accounts_stopping hfinds rfl (fun hm => .inr (hr.symm.trans hm)) (.inl hc) hf

theorem accounts_ended (hfinds : w.Finds b) (hs : st.status = .failed ∨ st.status = .completed)
    (hr : Marked st → Marked b) (hc : st.retryCount = b.retryCount)
    (hf : st.status = .completed → st.failedAt = b.failedAt) : Accounts m b st w where
  counts _ := .inl hc
  queued h := by rw [h] at hs; simp at hs
  marked h := .inr (hr h)
  unmarked h := by obtain hs | hs := hs <;> rw [hs] at h <;> simp at h
  failedAt h := .inl (hf (hs.resolve_left h))
  live h := by obtain hs | hs := hs <;> rw [hs] at h <;> cases h
  finds := hfinds

theorem accounts_queued (hfinds : w.Finds b) (hs : st.status = .queued)
    (hreturns : w.returns st = true ∨ st.retryCount = b.retryCount + 1) (hr : ¬ Marked st)
    (hc : w ≠ .historical → Counts m b.retryCount st.retryCount)
    (hf : st.failedAt = b.failedAt ∨ st.failedAt = 0 ∧ w.revives = true)
    (hl : live b.status = true ∨ w.revives = true) : Accounts m b st w where
  counts := hc
  queued _ := hreturns.imp_right .inl
  marked h := absurd h hr
  unmarked _ h := absurd h hr
  failedAt _ := hf.imp_right fun h => ⟨hs, h⟩
  live _ := hl
  finds := hfinds

theorem accounts_requeued {count : Nat} {t : Time} (hfinds : w.Finds b)
    (h : account st = (.queued, "", count, t)) (hreturns : w.returns st = true)
    (hc : w ≠ .historical → count = b.retryCount)
    (hf : t = b.failedAt ∨ t = 0 ∧ w.revives = true)
    (hl : live b.status = true ∨ w.revives = true) : Accounts m b st w := by
  simp only [account, Prod.mk.injEq] at h
  obtain ⟨hs, hr, hcount, ht⟩ := h
  exact accounts_queued hfinds hs (.inl hreturns) (unmarked_of_empty hr)
    (fun hw => .inl (hcount.trans (hc hw))) (ht ▸ hf) hl

end Accounts

/-! ### Errors and failures -/

theorem classifyRetryableError_unmarked {stage : String} (hs : stage ≠ "jit_cleanup_pending")
    (err : Err) : (classifyRetryableError stage err).1 ≠ "jit_cleanup_pending" := by
  unfold classifyRetryableError
  split
  · rename_i code _
    cases code <;> decide
  · rename_i reason _
    cases reason <;> decide
  · decide
  · decide
  · dsimp only
    repeat' split
    all_goals first
      | decide
      | exact hs

theorem stage_text_unmarked (stage : Stage) : stage.text ≠ "jit_cleanup_pending" := by
  cases stage <;> decide

theorem exitCode_unmarked (code : Int) : toString code ≠ "jit_cleanup_pending" := by
  intro h
  cases code with
  | ofNat n =>
    have hn : String.ofList (Nat.toDigits 10 n) = "jit_cleanup_pending" := h
    have hj : 'j' ∈ Nat.toDigits 10 n := by
      rw [← String.toList_ofList (l := Nat.toDigits 10 n), hn]
      decide
    exact absurd (Nat.isDigit_of_mem_toDigits (by decide) (by decide) hj) (by decide)
  | negSucc n =>
    have hn : "-" ++ Nat.repr (n + 1) = "jit_cleanup_pending" := h
    have hlist := congrArg String.toList hn
    rw [String.toList_append] at hlist
    cases hlist

theorem unmarked_failWith {st : RunnerState} {stage : Stage} {reason error : String}
    (hr : reason ≠ "jit_cleanup_pending") : ¬ Marked (failWith st stage reason error) := hr

section Edits

variable (cfg : Settings) (st : RunnerState)

theorem applyFailure_cases (stage : Stage) (err : Err) (now : Time) :
    let next := applyFailure cfg st stage err true now
    ¬ Marked next ∧ next.failureStage = some stage ∧
    (next.status = .failed ∧ next.retryCount = st.retryCount ∨
      next.status = .queued ∧ next.failedAt = 0 ∧
      Counts cfg.retryMaxAttempts st.retryCount next.retryCount ∧
      (deferral next = true ∧ isQueueDeferFailure (classifyRetryableError stage.text err).1 = true ∨
        next.retryCount = st.retryCount + 1)) := by
  have hcode := classifyRetryableError_unmarked (stage_text_unmarked stage) err
  unfold applyFailure
  dsimp only
  split
  · rename_i h
    simp only [Bool.true_and, Bool.and_eq_true] at h
    refine ⟨hcode, rfl, .inr ⟨rfl, rfl, ?_, .inl ⟨?_, h.2⟩⟩⟩
    · simp only [Counts, requeueForRetry]
      split
      · rename_i hroom
        exact .inr ⟨hroom, rfl⟩
      · exact .inl rfl
    · simp only [deferral, requeueForRetry, Bool.and_eq_true]
      exact h
  · split
    · rename_i h
      simp only [Bool.true_and, Bool.and_eq_true, decide_eq_true_eq] at h
      exact ⟨hcode, rfl, .inr ⟨rfl, rfl, .inr ⟨h.2, rfl⟩, .inr rfl⟩⟩
    · exact ⟨hcode, rfl, .inl ⟨rfl, rfl⟩⟩

@[simp] theorem account_recordAssignedJob (job : WorkflowJob) :
    account (recordAssignedJob st job) = account st := by
  unfold recordAssignedJob
  split <;> rfl

@[simp] theorem account_retain (job : WorkflowJob) (now : Time) :
    account (retainWorkflowJobResult st job now).1 = account st := by
  unfold retainWorkflowJobResult
  split <;> rfl

@[simp] theorem account_setTerminationSource (source : TerminationSource) :
    account (setTerminationSource st source) = account st := by
  unfold setTerminationSource
  split <;> rfl

@[simp] theorem account_setEffectiveRunnerVersion (result : ExitResult) :
    account (setEffectiveRunnerVersion st result) = account st := by
  unfold setEffectiveRunnerVersion
  split <;> rfl

theorem account_requeueInterrupted :
    account (requeueInterrupted st) = (.queued, "", st.retryCount, st.failedAt) := by
  simp only [account, requeueInterrupted, clearLastError, clearFailure, RunnerState.clearLease,
    RunnerState.clearSandboxServiceSnapshot, RunnerState.clearRunnerEnvironmentSnapshot]

theorem account_requeueAfterJITCleanup :
    account (requeueAfterJITCleanup st) = (.queued, "", st.retryCount, st.failedAt) := by
  simp only [account, requeueAfterJITCleanup, clearLastError, clearFailure, RunnerState.clearLease]

theorem account_requeueMismatched :
    account (requeueMismatched st) = (.queued, "", st.retryCount, 0) := by
  simp only [account, requeueMismatched, clearLastError, clearFailure, RunnerState.clearLease,
    RunnerState.clearSandboxServiceSnapshot, RunnerState.clearRunnerEnvironmentSnapshot]

theorem account_requeueHistorical :
    account (requeueHistorical st) = (.queued, "", 0, 0) := by
  simp only [account, requeueHistorical, clearLastError, clearFailure, RunnerState.clearLease,
    RunnerState.clearSandboxServiceSnapshot, RunnerState.clearRunnerEnvironmentSnapshot]

theorem finishStop_account (now : Time) :
    ((finishStop st now).status = .failed ∨ (finishStop st now).status = .completed) ∧
    (Marked (finishStop st now) → Marked st) ∧
    (finishStop st now).retryCount = st.retryCount ∧
    ((finishStop st now).status = .completed → (finishStop st now).failedAt = st.failedAt) := by
  unfold finishStop
  dsimp only
  split
  · exact ⟨.inl rfl, fun h => h, rfl, nofun⟩
  · exact ⟨.inr rfl, fun h => absurd h (unmarked_of_empty rfl), rfl, fun _ => rfl⟩

theorem retryRunnerExitedWithoutJob_account (now : Time) :
    retryRunnerExitedWithoutJob cfg st now = st ∨
    ¬ Marked (retryRunnerExitedWithoutJob cfg st now) ∧
      ((retryRunnerExitedWithoutJob cfg st now).status = .failed ∧
        (retryRunnerExitedWithoutJob cfg st now).retryCount = st.retryCount ∨
      (retryRunnerExitedWithoutJob cfg st now).status = .queued ∧
        (retryRunnerExitedWithoutJob cfg st now).failedAt = 0 ∧
        Counts cfg.retryMaxAttempts st.retryCount
          (retryRunnerExitedWithoutJob cfg st now).retryCount ∧
        (retryRunnerExitedWithoutJob cfg st now).retryCount = st.retryCount + 1) := by
  obtain ⟨hm, -, hcases⟩ :=
    applyFailure_cases cfg st .runnerExit (.exitedWithoutJob st.error) now
  unfold retryRunnerExitedWithoutJob
  split
  · exact .inl rfl
  · refine .inr ?_
    dsimp only
    obtain ⟨hs, hc⟩ | ⟨hs, hf, hc, hd | hnext⟩ := hcases
    · rw [if_neg (by rw [hs]; nofun)]
      exact ⟨hm, .inl ⟨hs, hc⟩⟩
    · -- the code of such an exit is none of those that are deferred
      cases hd.2
    · rw [if_pos hs]
      exact ⟨hm, .inr ⟨hs, hf, hc, hnext⟩⟩

theorem completeObserved_account (job : WorkflowJob) (now : Time) :
    (completeObserved st job now).status = .completed ∧
    (completeObserved st job now).failureReason = "" ∧
    (completeObserved st job now).retryCount = st.retryCount ∧
    (completeObserved st job now).failedAt = st.failedAt := by
  have h := account_retain { (clearLastError (clearFailure st)).clearLease with
    status := .completed
    assignedJobID := 0
    assignedJobName := ""
    nextRetryAt := 0 } job now
  simp only [account, Prod.mk.injEq] at h
  exact h

variable {cfg st} {err : Err} {now : Time} {next : RunnerState}

theorem scheduleStopRetry_account (h : scheduleStopRetry cfg st err now = some next) :
    next.status = .stopping ∧ (Marked next → Marked st) ∧
    Counts cfg.retryMaxAttempts st.retryCount next.retryCount ∧ next.failedAt = st.failedAt := by
  have hcode : (classifyRetryableError "stop" err).1 ≠ "jit_cleanup_pending" :=
    classifyRetryableError_unmarked (by decide) err
  unfold scheduleStopRetry at h
  dsimp only at h
  split at h
  · cases h
  · rename_i hroom
    cases h
    simp only [Bool.or_eq_true, decide_eq_true_eq, not_or, Nat.not_le] at hroom
    exact ⟨rfl, fun hm => absurd hm hcode, .inr ⟨hroom.2, rfl⟩, rfl⟩

theorem scheduleCleanupRetry_account (h : scheduleCleanupRetry cfg st err now = some next) :
    next.status = .stopping ∧ (Marked next → Marked st) ∧
    Counts cfg.retryMaxAttempts st.retryCount next.retryCount ∧ next.failedAt = st.failedAt := by
  have hcode : (classifyRetryableError "github_cleanup" err).1 ≠ "jit_cleanup_pending" :=
    classifyRetryableError_unmarked (by decide) err
  have hcounts : Counts cfg.retryMaxAttempts st.retryCount
      (if st.retryCount < cfg.retryMaxAttempts then st.retryCount + 1 else st.retryCount) := by
    split
    · rename_i hroom
      exact .inr ⟨hroom, rfl⟩
    · exact .inl rfl
  unfold scheduleCleanupRetry at h
  dsimp only at h
  split at h
  · cases h
  · split at h
    · cases h
    · have hnext := Option.some.inj h
      subst hnext
      refine ⟨rfl, fun hm => ?_, hcounts, ?_⟩
      · simp only [Marked] at hm
        split at hm
        · exact absurd hm hcode
        · exact hm
      · dsimp only
        split <;> rfl

end Edits

end CiRunner.Lifecycle
