import CiRunner.Lifecycle.Calls

/-! What the writers of the lifecycle find and leave. The part of a row that the
properties speak of is its core; for each writer there is one relation between the
core of the row it is based on and the core it writes. -/

namespace CiRunner.Lifecycle

open CiRunner.State Text

/-! ### The core of a row -/

/-- The runner that a row stands for: its status, its sandbox and what an attempt leaves behind. -/
structure Core where
  status : Status := .queued
  sandboxID : String := ""
  processPID : Nat := 0
  creatingAt : Time := 0
  runningAt : Time := 0
  stoppingAt : Time := 0
  terminationSource : Option TerminationSource := none
  runnerExitCode : Option Int := none
  environment : Environment := {}
  service : ServiceSnapshot := {}
  deriving DecidableEq

/-- The snapshots are compared as the store keeps them. -/
def core (r : RunnerState) : Core where
  status := r.status
  sandboxID := r.sandboxID
  processPID := r.processPID
  creatingAt := r.creatingAt
  runningAt := r.runningAt
  stoppingAt := r.stoppingAt
  terminationSource := r.terminationSource
  runnerExitCode := r.runnerExitCode
  environment := r.environment.trim
  service := r.service.trim

/-- The times that the store fills in. -/
def Core.stamp (c : Core) (now : Time) : Core :=
  match c.status with
  | .creating => { c with creatingAt := RunnerState.firstTime c.creatingAt now }
  | .running =>
    { c with
      creatingAt := RunnerState.firstTime c.creatingAt now
      runningAt := RunnerState.firstTime c.runningAt now }
  | .stopping => { c with stoppingAt := RunnerState.firstTime c.stoppingAt now }
  | _ => c

theorem environment_trim_trim (e : Environment) : e.trim.trim = e.trim := by
  simp [Environment.trim, trimSpace_trimSpace]

theorem service_trim_trim (s : ServiceSnapshot) : s.trim.trim = s.trim := by
  simp [ServiceSnapshot.trim, trimSpace_trimSpace]

@[simp] theorem environment_trim_empty : ({} : Environment).trim = {} := by decide +kernel

@[simp] theorem service_trim_empty : ({} : ServiceSnapshot).trim = {} := by decide +kernel

theorem core_written (st current : RunnerState) (now : Time) :
    core (st.written current now) = (core st).stamp now := by
  rcases hs : st.status <;>
    simp [core, RunnerState.written, RunnerState.applyStateTimestamps, Core.stamp, hs,
      environment_trim_trim, service_trim_trim]

section Stamp

variable (c : Core) (now : Time)

@[simp] theorem status_stamp : (c.stamp now).status = c.status := by
  unfold Core.stamp
  split <;> rfl

@[simp] theorem sandboxID_stamp : (c.stamp now).sandboxID = c.sandboxID := by
  unfold Core.stamp
  split <;> rfl

@[simp] theorem processPID_stamp : (c.stamp now).processPID = c.processPID := by
  unfold Core.stamp
  split <;> rfl

@[simp] theorem service_stamp : (c.stamp now).service = c.service := by
  unfold Core.stamp
  split <;> rfl

variable {c}

theorem stamp_queued (h : c.status = .queued) : c.stamp now = c := by
  simp [Core.stamp, h]

theorem stamp_creating (h : c.status = .creating) :
    c.stamp now = { c with creatingAt := RunnerState.firstTime c.creatingAt now } := by
  simp [Core.stamp, h]

end Stamp

@[simp] theorem core_clearLease (r : RunnerState) : core r.clearLease = core r := rfl

@[simp] theorem core_claimed (r : RunnerState) (version : Nat) (workerID : String)
    (now leaseTTL : Time) : core (r.claimed version workerID now leaseTTL) = core r := rfl

@[simp] theorem core_retried (r : RunnerState) (version : Nat) (now : Time) :
    core (r.retried version now) = {} := by
  simp [core, RunnerState.retried]

/-! ### What a write does -/

/-- The sandbox of a row is known to be gone. -/
def Core.Gone (stopped : List String) (c : Core) : Prop :=
  c.sandboxID = "" ∨ c.sandboxID ∈ stopped

/-- A change of status that keeps the sandbox. -/
structure Moves (c d : Core) (status : Status) : Prop where
  status_eq : d.status = status
  sandboxID_eq : d.sandboxID = c.sandboxID

/-- What a failed attempt leaves: the end of the request, or a queued row that keeps the reason
for which an earlier runner ended. -/
structure Resets (c d : Core) : Prop where
  sandboxID_eq : d.sandboxID = ""
  outcome : d.status = .failed ∨
    d = { terminationSource := c.terminationSource, runnerExitCode := c.runnerExitCode }

/-- The runner was started, and is not being stopped. -/
def Core.Started (c : Core) : Prop := c.status = .creating ∨ c.status = .running

/-- What each writer finds in `c` and leaves in `d`, where the stopped sandboxes are those that the
thread itself has stopped. -/
def Site (stopped : List String) (c d : Core) : Writer → Prop
  | .creating => c.status = .queued ∧ d = { c with status := .creating }
  | .running _ => c.status = .creating ∧ d.status = .running ∧ d.service = c.service ∧
    trimSpace d.sandboxID = d.sandboxID
  | .skipped _ => c.sandboxID = "" ∧ Moves c d .completed
  | .failStart _ | .retryOrFail => Resets c d
  | .snapshot _ => ∃ service, d = { c with service := service }
  | .jobCheckDeferred _ => c.status = .creating ∧ c.sandboxID = "" ∧ c.processPID = 0 ∧
    (d = { c with status := .queued, creatingAt := 0 } ∨ Moves c d .failed)
  | .deferQueued _ => c.status = .queued ∧ d = { c with service := {} }
  | .deferCreating _ => c.status = .creating ∧ c.sandboxID = "" ∧
    d = { c with status := .queued, creatingAt := 0, environment := {}, service := {} }
  | .jitRetained _ | .stopping | .forceStopping => Moves c d .stopping
  | .jitInterrupted => c.status = .creating ∧ Moves c d .stopping
  | .jobCheckCleared _ | .jobStarted _ | .jobInProgress | .exitJobResult | .stopConflictResult
  | .stopCompletedResult | .recoverLease | .wake => d = c
  | .exitBusy => c.Started ∧ c.sandboxID ≠ "" ∧
    (d.service = c.service ∧ d.processPID = c.processPID) ∧ Moves c d .running
  | .exitStopping => c.Started ∧ Moves c d .stopping
  | .exitCleanupRetry | .stopRetry | .stopCleanupRetry | .forceCleanupRetry =>
    c.status = .stopping ∧ Moves c d .stopping
  | .exitFinal => Moves c d .failed ∨
    (c.Gone stopped ∧ (d = {} ∨ d.status = .failed ∨ Moves c d .completed) ∧
      (d.sandboxID = "" ∨ d.sandboxID = c.sandboxID))
  | .lateExit => c.status ≠ .queued ∧ c.status ≠ .creating ∧ c.status ≠ .running ∧
    Moves c d c.status
  | .reconnect n => c.Started ∧ d.status = .running ∧ d.service = c.service ∧
    trimSpace d.sandboxID = d.sandboxID ∧
    (c.sandboxID ≠ "" → d.sandboxID = c.sandboxID ∧ n = none) ∧ (c.sandboxID = "" → n.isSome)
  | .requeueInterrupted => c.status = .creating ∧
    d = { terminationSource := c.terminationSource, runnerExitCode := c.runnerExitCode }
  | .stopFailed | .forceStopFailed | .stopCleanupFailed | .forceFailed | .jitFailed =>
    Moves c d .failed
  | .stopFinal => c.Gone stopped ∧ (Moves c d .failed ∨ Moves c d .completed)
  | .mismatchKept => (c.status = .stopping ∨ c.status = .completed) ∧ Moves c d c.status
  | .mismatchCompleted => c.Gone stopped ∧ Moves c d .completed
  | .mismatchRequeued => (c.Gone stopped ∨ c.status = .completed) ∧ d = {}
  | .jitRequeued => c.Gone stopped ∧ d.status = .queued ∧ d.sandboxID = ""
  | .historical => c.status = .completed ∧ c.sandboxID = "" ∧ d = {}
  | .completeObserved => Moves c d .completed

/-! ### Rows in order -/

/-- What is true of every row at any time. -/
structure RowOk (r : RunnerState) : Prop where
  key : sanitizeID r.id = r.id
  sandbox : trimSpace r.sandboxID = r.sandboxID
  /-- A request has no sandbox before its runner is adopted. -/
  unprovisioned : r.status = .queued ∨ r.status = .creating → r.sandboxID = ""
  environment : r.environment.trim = r.environment
  service : r.service.trim = r.service

/-- A core without a sandbox where there must be none. -/
structure CoreOk (c : Core) : Prop where
  sandbox : trimSpace c.sandboxID = c.sandboxID
  unprovisioned : c.status = .queued ∨ c.status = .creating → c.sandboxID = ""

theorem RowOk.core {r : RunnerState} (h : RowOk r) : CoreOk (core r) := ⟨h.sandbox, h.unprovisioned⟩

theorem coreOk_empty : CoreOk {} := ⟨by decide +kernel, fun _ => rfl⟩

variable {stopped : List String} {c d : Core}

theorem Moves.coreOk {status : Status} (h : Moves c d status) (hc : CoreOk c)
    (hs : status ≠ .queued ∧ status ≠ .creating) : CoreOk d := by
  refine ⟨by rw [h.sandboxID_eq, hc.sandbox], fun hd => ?_⟩
  rw [h.status_eq] at hd
  exact absurd hd (by simp [hs])

theorem coreOk_of_sandbox (h : d.sandboxID = "") : CoreOk d :=
  ⟨by rw [h]; decide +kernel, fun _ => h⟩

theorem Site.coreOk {w : Writer} (h : Site stopped c d w) (hc : CoreOk c) : CoreOk d := by
  cases w with
  | creating => obtain ⟨hq, rfl⟩ := h; exact coreOk_of_sandbox (hc.unprovisioned (.inl hq))
  | running => exact ⟨h.2.2.2, fun hd => by rw [h.2.1] at hd; simp at hd⟩
  | skipped => exact h.2.coreOk hc (by simp)
  | failStart => exact coreOk_of_sandbox h.sandboxID_eq
  | retryOrFail => exact coreOk_of_sandbox h.sandboxID_eq
  | snapshot => obtain ⟨service, rfl⟩ := h; exact ⟨hc.sandbox, hc.unprovisioned⟩
  | jobCheckDeferred =>
    obtain ⟨-, hn, -, rfl | h⟩ := h
    · exact coreOk_of_sandbox hn
    · exact h.coreOk hc (by simp)
  | deferQueued => obtain ⟨hq, rfl⟩ := h; exact coreOk_of_sandbox (hc.unprovisioned (.inl hq))
  | deferCreating => obtain ⟨-, hn, rfl⟩ := h; exact coreOk_of_sandbox hn
  | jitRetained | stopping | forceStopping => exact Moves.coreOk h hc (by simp)
  | jitInterrupted => exact h.2.coreOk hc (by simp)
  | jobCheckCleared | jobStarted | jobInProgress | exitJobResult | stopConflictResult
  | stopCompletedResult | recoverLease | wake => cases h; exact hc
  | exitBusy => exact h.2.2.2.coreOk hc (by simp)
  | exitStopping => exact h.2.coreOk hc (by simp)
  | exitCleanupRetry | stopRetry | stopCleanupRetry | forceCleanupRetry =>
    exact h.2.coreOk hc (by simp)
  | exitFinal =>
    obtain h | ⟨-, h, hd⟩ := h
    · exact h.coreOk hc (by simp)
    · obtain rfl | h | h := h
      · exact coreOk_empty
      · refine ⟨?_, fun hs => by rw [h] at hs; simp at hs⟩
        obtain hd | hd := hd
        · exact (coreOk_of_sandbox hd).sandbox
        · rw [hd, hc.sandbox]
      · exact h.coreOk hc (by simp)
  | lateExit => exact h.2.2.2.coreOk hc ⟨h.1, h.2.1⟩
  | reconnect => exact ⟨h.2.2.2.1, fun hd => by rw [h.2.1] at hd; simp at hd⟩
  | requeueInterrupted => obtain ⟨-, rfl⟩ := h; exact coreOk_of_sandbox rfl
  | stopFailed | forceStopFailed | stopCleanupFailed | forceFailed | jitFailed =>
    exact Moves.coreOk h hc (by simp)
  | stopFinal => obtain ⟨-, h | h⟩ := h <;> exact h.coreOk hc (by simp)
  | mismatchKept => obtain ⟨hs | hs, h⟩ := h <;> exact h.coreOk hc (by simp [hs])
  | mismatchCompleted => exact h.2.coreOk hc (by simp)
  | mismatchRequeued => obtain ⟨-, rfl⟩ := h; exact coreOk_empty
  | jitRequeued => exact coreOk_of_sandbox h.2.2
  | historical => obtain ⟨-, -, rfl⟩ := h; exact coreOk_empty
  | completeObserved => exact Moves.coreOk h hc (by simp)

/-- Only the adoption of a runner gives a row a sandbox. -/
theorem Site.provisioned {w : Writer} (h : Site stopped c d w) (hc : c.sandboxID = "") :
    d.sandboxID = "" ∨ (∃ n, w = .running n) ∨ ∃ n, w = .reconnect n := by
  cases w with
  | running n => exact .inr (.inl ⟨n, rfl⟩)
  | reconnect n => exact .inr (.inr ⟨n, rfl⟩)
  | creating | deferQueued => obtain ⟨-, rfl⟩ := h; exact .inl hc
  | skipped => exact .inl (h.2.sandboxID_eq.trans hc)
  | failStart | retryOrFail => exact .inl h.sandboxID_eq
  | snapshot => obtain ⟨service, rfl⟩ := h; exact .inl hc
  | jobCheckDeferred =>
    obtain ⟨-, -, -, rfl | h⟩ := h
    · exact .inl hc
    · exact .inl (h.sandboxID_eq.trans hc)
  | deferCreating => obtain ⟨-, -, rfl⟩ := h; exact .inl hc
  | jitRetained | stopping | forceStopping | stopFailed | forceStopFailed | stopCleanupFailed
  | forceFailed | jitFailed | completeObserved => exact .inl (h.sandboxID_eq.trans hc)
  | jitInterrupted | exitStopping | exitCleanupRetry | stopRetry | stopCleanupRetry
  | forceCleanupRetry | mismatchKept | mismatchCompleted => exact .inl (h.2.sandboxID_eq.trans hc)
  | jobCheckCleared | jobStarted | jobInProgress | exitJobResult | stopConflictResult
  | stopCompletedResult | recoverLease | wake => cases h; exact .inl hc
  | exitBusy => exact absurd hc h.2.1
  | exitFinal =>
    obtain h | ⟨-, -, hd | hd⟩ := h
    · exact .inl (h.sandboxID_eq.trans hc)
    · exact .inl hd
    · exact .inl (hd.trans hc)
  | lateExit => exact .inl (h.2.2.2.sandboxID_eq.trans hc)
  | requeueInterrupted => obtain ⟨-, rfl⟩ := h; exact .inl rfl
  | stopFinal => obtain ⟨-, h | h⟩ := h <;> exact .inl (h.sandboxID_eq.trans hc)
  | mismatchRequeued => obtain ⟨-, rfl⟩ := h; exact .inl rfl
  | jitRequeued => exact .inl h.2.2
  | historical => obtain ⟨-, -, rfl⟩ := h; exact .inl rfl

theorem rowOk_written {st current : RunnerState} {now : Time} (hc : RowOk current)
    (hd : CoreOk (core st)) : RowOk (st.written current now) where
  key := hc.key
  sandbox := by
    have h := congrArg Core.sandboxID (core_written st current now)
    simp only [sandboxID_stamp] at h
    exact (congrArg trimSpace h).trans (hd.sandbox.trans h.symm)
  unprovisioned hs := by
    have h := congrArg Core.sandboxID (core_written st current now)
    have h' := congrArg Core.status (core_written st current now)
    simp only [sandboxID_stamp, status_stamp] at h h'
    refine h.trans (hd.unprovisioned ?_)
    rw [← h']
    exact hs
  environment := environment_trim_trim _
  service := service_trim_trim _

end CiRunner.Lifecycle
