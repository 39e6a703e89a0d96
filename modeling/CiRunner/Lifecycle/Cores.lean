import CiRunner.Lifecycle.Loops
import CiRunner.Lifecycle.Writes

/-! What the edits of a request do to its core. None of them touches the id or the
version that the compare-and-swap of a write goes by. -/

namespace CiRunner.Lifecycle

open CiRunner.State Text

/-- What the compare-and-swap goes by. -/
def rowKey (st : RunnerState) : String × Nat := (st.id, st.version)

variable (cfg : Settings) (st : RunnerState)

/-! ### Edits that leave the core alone -/

@[simp] theorem rowKey_recordAssignedJob (job : WorkflowJob) :
    rowKey (recordAssignedJob st job) = rowKey st := by
  unfold recordAssignedJob
  split <;> rfl

@[simp] theorem core_recordAssignedJob (job : WorkflowJob) :
    core (recordAssignedJob st job) = core st := by
  unfold recordAssignedJob
  split <;> rfl

theorem retainWorkflowJobResult_cases (job : WorkflowJob) (now : Time) :
    (retainWorkflowJobResult st job now).1 = st ∨
    ∃ result, (retainWorkflowJobResult st job now).1 = { st with jobResult := result } := by
  unfold retainWorkflowJobResult
  split
  · exact .inl rfl
  · exact .inr ⟨_, rfl⟩

@[simp] theorem rowKey_retain (job : WorkflowJob) (now : Time) :
    rowKey (retainWorkflowJobResult st job now).1 = rowKey st := by
  obtain h | ⟨result, h⟩ := retainWorkflowJobResult_cases st job now <;> rw [h]
  rfl

@[simp] theorem core_retain (job : WorkflowJob) (now : Time) :
    core (retainWorkflowJobResult st job now).1 = core st := by
  obtain h | ⟨result, h⟩ := retainWorkflowJobResult_cases st job now <;> rw [h]
  rfl

@[simp] theorem core_clearFailure : core (clearFailure st) = core st := rfl

@[simp] theorem core_clearLastError : core (clearLastError st) = core st := rfl

@[simp] theorem rowKey_clearFailure : rowKey (clearFailure st) = rowKey st := rfl

@[simp] theorem rowKey_clearLastError : rowKey (clearLastError st) = rowKey st := rfl

/-! ### Starts -/

theorem rowKey_applyFailure (stage : Stage) (err : Err) (retry : Bool) (now : Time) :
    rowKey (applyFailure cfg st stage err retry now) = rowKey st := by
  unfold applyFailure
  dsimp only
  split
  · rfl
  · split <;> rfl

theorem resets_applyFailure (stage : Stage) (err : Err) (retry : Bool) (now : Time) :
    Resets (core st) (core (applyFailure cfg st stage err retry now)) := by
  unfold applyFailure
  dsimp only
  split
  · exact ⟨rfl, .inr (by simp [core, requeueForRetry, RunnerState.clearRunnerEnvironmentSnapshot,
      RunnerState.clearSandboxServiceSnapshot, RunnerState.clearLease])⟩
  · split
    · exact ⟨rfl, .inr (by simp [core, requeueForRetry, RunnerState.clearRunnerEnvironmentSnapshot,
        RunnerState.clearSandboxServiceSnapshot, RunnerState.clearLease])⟩
    · exact ⟨rfl, .inl rfl⟩

theorem rowKey_beginCreating (workerID : String) (now : Time) :
    rowKey (beginCreating cfg st workerID now) = rowKey st := by
  unfold beginCreating
  dsimp only
  split <;> rfl

theorem core_beginCreating (workerID : String) (now : Time) :
    core (beginCreating cfg st workerID now) = { core st with status := .creating } := by
  unfold beginCreating
  dsimp only
  split <;> rfl

theorem rowKey_completeSkipped (job : WorkflowJob) (now : Time) :
    rowKey (completeSkipped st job now) = rowKey st :=
  (rowKey_retain (recordAssignedJob st job) job now).trans (rowKey_recordAssignedJob st job)

theorem moves_completeSkipped (job : WorkflowJob) (now : Time) :
    Moves (core st) (core (completeSkipped st job now)) .completed where
  status_eq := rfl
  sandboxID_eq := by
    have h := congrArg Core.sandboxID (core_retain (recordAssignedJob st job) job now)
    rw [core_recordAssignedJob] at h
    exact h

theorem core_deferQueued (stage : Capacity.CapacityStage) (next : Time) :
    core (deferQueued st stage next) = { core st with service := {} } := by
  simp [core, deferQueued, RunnerState.clearSandboxServiceSnapshot, RunnerState.clearLease]

theorem core_deferCreating (next : Time) :
    core (deferCreating st next) =
      { core st with status := .queued, creatingAt := 0, environment := {}, service := {} } := by
  simp [core, deferCreating, RunnerState.clearSandboxServiceSnapshot,
    RunnerState.clearRunnerEnvironmentSnapshot, RunnerState.clearLease]

theorem rowKey_deferForJob (known rateLimited : Bool) (code message : String) (now : Time) :
    rowKey (deferForJob cfg st known rateLimited code message now) = rowKey st := by
  unfold deferForJob
  dsimp only
  split
  · rfl
  · split <;> rfl

theorem core_deferForJob (known rateLimited : Bool) (code message : String) (now : Time) :
    core (deferForJob cfg st known rateLimited code message now) =
      { core st with status := .queued, creatingAt := 0 } ∨
    Moves (core st) (core (deferForJob cfg st known rateLimited code message now)) .failed := by
  unfold deferForJob
  dsimp only
  split
  · exact .inr ⟨rfl, rfl⟩
  · split <;> exact .inl rfl

theorem rowKey_requeueInterrupted : rowKey (requeueInterrupted st) = rowKey st := by
  simp [rowKey, requeueInterrupted, clearLastError, clearFailure,
    RunnerState.clearSandboxServiceSnapshot, RunnerState.clearRunnerEnvironmentSnapshot,
    RunnerState.clearLease]

theorem core_requeueInterrupted :
    core (requeueInterrupted st) =
      { terminationSource := st.terminationSource, runnerExitCode := st.runnerExitCode } := by
  simp [core, requeueInterrupted, clearLastError, clearFailure,
    RunnerState.clearSandboxServiceSnapshot, RunnerState.clearRunnerEnvironmentSnapshot,
    RunnerState.clearLease]

/-! ### Stops -/

@[simp] theorem rowKey_setTerminationSource (source : TerminationSource) :
    rowKey (setTerminationSource st source) = rowKey st := by
  unfold setTerminationSource
  split <;> rfl

theorem setTerminationSource_cases (source : TerminationSource) :
    setTerminationSource st source = st ∨
    setTerminationSource st source = { st with terminationSource := some source } := by
  unfold setTerminationSource
  split
  · exact .inl rfl
  · exact .inr rfl

@[simp] theorem sandboxID_setTerminationSource (source : TerminationSource) :
    (setTerminationSource st source).sandboxID = st.sandboxID := by
  obtain h | h := setTerminationSource_cases st source <;> rw [h]

@[simp] theorem status_setTerminationSource (source : TerminationSource) :
    (setTerminationSource st source).status = st.status := by
  obtain h | h := setTerminationSource_cases st source <;> rw [h]

theorem rowKey_retainJITCleanup (now : Time) :
    rowKey (retainJITCleanup cfg st now) = rowKey st :=
  rowKey_setTerminationSource (markRunnerCleanupStarted st now) .failureCleanup

theorem moves_retainJITCleanup (now : Time) :
    Moves (core st) (core (retainJITCleanup cfg st now)) .stopping where
  status_eq := status_setTerminationSource (markRunnerCleanupStarted st now) .failureCleanup
  sandboxID_eq := sandboxID_setTerminationSource (markRunnerCleanupStarted st now) .failureCleanup

variable {cfg st}

theorem scheduleStopRetry_eq_some {err : Err} {now : Time} {next : RunnerState}
    (h : scheduleStopRetry cfg st err now = some next) :
    rowKey next = rowKey st ∧ Moves (core st) (core next) .stopping := by
  unfold scheduleStopRetry at h
  dsimp only at h
  split at h
  · cases h
  · cases h
    exact ⟨rfl, rfl, rfl⟩

theorem scheduleCleanupRetry_eq_some {err : Err} {now : Time} {next : RunnerState}
    (h : scheduleCleanupRetry cfg st err now = some next) :
    rowKey next = rowKey st ∧ Moves (core st) (core next) .stopping := by
  unfold scheduleCleanupRetry at h
  dsimp only at h
  split at h
  · cases h
  · split at h
    · cases h
    · have hnext := Option.some.inj h
      subst hnext
      split <;> exact ⟨rfl, rfl, rfl⟩

variable (cfg st)

theorem rowKey_requeueMismatched : rowKey (requeueMismatched st) = rowKey st := by
  simp [rowKey, requeueMismatched, clearLastError, clearFailure,
    RunnerState.clearSandboxServiceSnapshot, RunnerState.clearRunnerEnvironmentSnapshot,
    RunnerState.clearLease]

theorem rowKey_requeueAfterJITCleanup : rowKey (requeueAfterJITCleanup st) = rowKey st := by
  simp [rowKey, requeueAfterJITCleanup, clearLastError, clearFailure, RunnerState.clearLease]

theorem core_requeueMismatched : core (requeueMismatched st) = {} := by
  simp [core, requeueMismatched, clearLastError, clearFailure,
    RunnerState.clearSandboxServiceSnapshot, RunnerState.clearRunnerEnvironmentSnapshot,
    RunnerState.clearLease]

theorem rowKey_finishStop (now : Time) : rowKey (finishStop st now) = rowKey st := by
  unfold finishStop
  dsimp only
  split <;> rfl

theorem moves_finishStop (now : Time) :
    Moves (core st) (core (finishStop st now)) .failed ∨
    Moves (core st) (core (finishStop st now)) .completed := by
  unfold finishStop
  dsimp only
  split
  · exact .inl ⟨rfl, rfl⟩
  · exact .inr ⟨rfl, rfl⟩

/-! ### Exits and reconciliation -/

@[simp] theorem rowKey_setEffectiveRunnerVersion (result : ExitResult) :
    rowKey (setEffectiveRunnerVersion st result) = rowKey st := by
  unfold setEffectiveRunnerVersion
  split <;> rfl

theorem setEffectiveRunnerVersion_eq (result : ExitResult) :
    ∃ environment, setEffectiveRunnerVersion st result = { st with environment := environment } := by
  unfold setEffectiveRunnerVersion
  split
  · exact ⟨_, rfl⟩
  · exact ⟨_, rfl⟩

theorem rowKey_retryRunnerExitedWithoutJob (now : Time) :
    rowKey (retryRunnerExitedWithoutJob cfg st now) = rowKey st := by
  have h := rowKey_applyFailure cfg st .runnerExit (.exitedWithoutJob st.error) true now
  unfold retryRunnerExitedWithoutJob
  split
  · rfl
  · dsimp only
    split
    · exact h
    · exact h

theorem core_retryRunnerExitedWithoutJob (now : Time) :
    retryRunnerExitedWithoutJob cfg st now = st ∨
    (core (retryRunnerExitedWithoutJob cfg st now)).sandboxID = "" ∧
      (core (retryRunnerExitedWithoutJob cfg st now) = {} ∨
        (core (retryRunnerExitedWithoutJob cfg st now)).status = .failed) := by
  have h := resets_applyFailure cfg st .runnerExit (.exitedWithoutJob st.error) true now
  unfold retryRunnerExitedWithoutJob
  split
  · exact .inl rfl
  · refine .inr ?_
    dsimp only
    obtain ⟨hn, hf | hq⟩ := h
    · split
      · rename_i hq
        exact absurd (hf.symm.trans hq) (by simp)
      · exact ⟨hn, .inr hf⟩
    · split
      · refine ⟨hn, .inl ?_⟩
        simp only [core, Core.mk.injEq] at hq ⊢
        obtain ⟨h1, h2, h3, h4, h5, h6, -, -, h9, h10⟩ := hq
        exact ⟨h1, h2, h3, h4, h5, h6, trivial, trivial, h9, h10⟩
      · rename_i hne
        exact absurd (congrArg Core.status hq) hne

theorem rowKey_requeueHistorical : rowKey (requeueHistorical st) = rowKey st := by
  simp [rowKey, requeueHistorical, clearLastError, clearFailure,
    RunnerState.clearSandboxServiceSnapshot, RunnerState.clearRunnerEnvironmentSnapshot,
    RunnerState.clearLease]

theorem core_requeueHistorical (h : neverRan st = true) : core (requeueHistorical st) = {} := by
  simp only [neverRan, Bool.and_eq_true, decide_eq_true_eq, Option.isNone_iff_eq_none] at h
  obtain ⟨⟨⟨⟨⟨⟨⟨⟨⟨⟨-, -⟩, h1⟩, h2⟩, h3⟩, h4⟩, h5⟩, h6⟩, -⟩, -⟩, -⟩ := h
  simp [core, requeueHistorical, clearLastError, clearFailure,
    RunnerState.clearSandboxServiceSnapshot, RunnerState.clearRunnerEnvironmentSnapshot,
    RunnerState.clearLease, h1, h2, h3, h4, h5, h6]

theorem completeObserved_cases (job : WorkflowJob) (now : Time) :
    rowKey (completeObserved st job now) = rowKey st ∧
    Moves (core st) (core (completeObserved st job now)) .completed := by
  unfold completeObserved
  dsimp only
  obtain h | ⟨result, h⟩ := retainWorkflowJobResult_cases
    { (clearLastError (clearFailure st)).clearLease with
      status := .completed
      assignedJobID := 0
      assignedJobName := ""
      nextRetryAt := 0 } job now <;> rw [h] <;> exact ⟨rfl, rfl, rfl⟩

end CiRunner.Lifecycle
