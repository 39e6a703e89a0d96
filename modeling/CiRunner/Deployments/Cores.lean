import CiRunner.Deployments.Handlers

/-! What matters of a deployment to the worker, and what each place that writes a
deployment makes of it. A place writes the copy that it has read or written last,
changed in its own way; the facts below about all the places are what the invariants
of whole runs rest on. -/

namespace CiRunner.Deployments

open Text Threads
open CiRunner.State (Time)

structure Core where
  id : String
  version : Nat
  revisionNumber : Nat
  scope : Scope
  status : DeploymentStatus
  sandboxID : String
  attempt : Nat
  failure : Failure
  error : String
  expiresAt : Time
  deriving DecidableEq

def Deployment.core (d : Deployment) : Core where
  id := d.id
  version := d.version
  revisionNumber := d.revisionNumber
  scope := d.scope
  status := d.status
  sandboxID := d.sandboxID
  attempt := d.attempt
  failure := d.failure
  error := d.error
  expiresAt := d.expiresAt

/-- A reason that is kept as it is written. -/
def Reason (reason : String) : Prop := reason ≠ "" ∧ trimSpace reason = reason

instance (reason : String) : Decidable (Reason reason) := inferInstanceAs (Decidable (_ ∧ _))

namespace Core

def counts (c : Core) : Bool := c.status.active || (c.status == .failed && c.sandboxID != "")

/-- Nothing is left to be done for the deployment. -/
def Over (c : Core) : Prop := c.status.terminal = true ∧ c.sandboxID = ""

/-- What holds of every row. -/
structure Ok (c : Core) : Prop where
  id : trimSpace c.id = c.id
  sandbox : trimSpace c.sandboxID = c.sandboxID
  reason : trimSpace c.failure.reason = c.failure.reason
  /-- A deployment that is not executed, or has ended well, has no sandbox. -/
  clean : c.status = .queued ∨ c.status = .planning ∨ c.status = .completed ∨
    c.status = .expired → c.sandboxID = ""
  failed : c.status = .failed → c.failure.reason ≠ ""
  started : c.status = .creating ∨ c.status = .running → 0 < c.attempt
  running : c.status = .running → c.sandboxID ≠ ""

/-- The failure of a deployment that is cleaned up is kept. -/
def Preserves (c : Core) : Prop :=
  c.status = .failed ∨ (c.status = .stopping ∧ c.failure.reason ≠ "")

instance (c : Core) : Decidable c.Preserves := inferInstanceAs (Decidable (_ ∨ _))

/-- The deployment fails, other than in cleaning up after its expiry. -/
def Fails (c d : Core) : Prop :=
  ∃ stage reason, stage ≠ .expiryCleanup ∧ Reason reason ∧
    d = { c with status := .failed, failure := ⟨some stage, reason⟩, error := reason }

/-- The evidence of a sandbox is kept, or is cleared. -/
def Drops (c c' : Core) : Prop := c' = c ∨ c' = { c with sandboxID := "" }

/-- The stage of an execution is reported, if there is a new one. -/
def Reports (c d : Core) : Prop := d = c ∨ ∃ stage, d = { c with failure := ⟨stage, ""⟩ }

/-- The evidence of a sandbox is added. -/
def Finds (c d : Core) : Prop :=
  c.sandboxID = "" ∧ d.sandboxID ≠ "" ∧ trimSpace d.sandboxID = d.sandboxID ∧
    d = { c with sandboxID := d.sandboxID, expiresAt := d.expiresAt }

end Core

/-- What a place finds in its copy and leaves in it. -/
def Site.Writes : Site → Core → Core → Prop
  | .planning, c, d => c.status = .queued ∧ d = { c with status := .planning, failure := {} }
  | .requeue, c, d =>
    c.status = .planning ∧ d = { c with status := .queued, failure := ⟨some .recovery, ""⟩ }
  | .planFailed, c, d => c.status = .planning ∧ c.Fails d
  | .templateFailed, c, d =>
    c.status = .planning ∧ Core.Fails { c with attempt := c.attempt + 1 } d
  | .creating, c, d =>
    c.status = .planning ∧
      d = { c with attempt := c.attempt + 1, status := .creating, failure := {} }
  | .created, c, d | .recovered, c, d => c.status = .creating ∧ c.Finds d
  | .stopRecovered, c, d => (c.status = .creating ∨ c.status = .stopping) ∧ c.Finds d
  | .createFailed, c, d | .applyFailed, c, d =>
    c.status = .creating ∧ ∃ c', c.Drops c' ∧ c'.Fails d
  | .createUnconfirmed, _, _ => False
  | .applyStage, c, d | .checkpoint, c, d => c.status = .creating ∧ c.Reports d
  | .applyExpired, c, d =>
    c.status = .creating ∧
      d = { c with sandboxID := "", status := .expired, failure := ⟨some .cleanup, ""⟩ }
  | .applyCleanupFailed, c, d =>
    c.status = .creating ∧ c.sandboxID ≠ "" ∧ ∃ reason, Reason reason ∧
      d = { c with
        status := .failed, failure := ⟨some .expiryCleanup, reason⟩, error := reason }
  | .running, c, d =>
    c.status = .creating ∧ c.sandboxID ≠ "" ∧
      d = { c with status := .running, failure := ⟨some (.apply .ready), ""⟩ }
  | .recoveryLost, c, d => c.status = .creating ∧ c.sandboxID = "" ∧ c.Fails d
  | .recovery, c, d => c.status = .creating ∧ c.sandboxID ≠ "" ∧ c.Fails d
  | .processExit, c, d => c.status = .running ∧ c.Fails d
  | .stopping unstarted, c, d =>
    ¬c.Over ∧ (unstarted = true → c.status = .queued ∨ c.status = .planning) ∧
      d = { c with
        status := .stopping
        failure := if c.Preserves then c.failure else ⟨some .cleanup, ""⟩ }
  | .stopCleanupFailed, c, d =>
    c.status = .stopping ∧ c.sandboxID ≠ "" ∧ ∃ stage reason, Reason reason ∧
      (stage = .expiryCleanup → c.failure.reason ≠ "" → c.failure.stage = some .expiryCleanup) ∧
      (c.failure.reason ≠ "" → c.failure.stage = some .expiryCleanup → stage = .expiryCleanup) ∧
      d = { c with status := .failed, failure := ⟨some stage, reason⟩, error := reason }
  | .stopped, c, d =>
    c.status = .stopping ∧
      ((c.failure.reason ≠ "" ∧ c.failure.stage ≠ some .expiryCleanup ∧
          d = { c with status := .failed, sandboxID := "" }) ∨
        ((c.failure.reason = "" ∨ c.failure.stage = some .expiryCleanup) ∧
          d = { c with status := .expired, sandboxID := "", failure := {}, error := "" }) ∨
        (c.failure.reason = "" ∧ d = { c with status := .completed, sandboxID := "" }))
  | .stopRequested, c, d =>
    ¬c.Over ∧ d = { c with status :=
      if c.status = .queued then .completed
      else if c.status = .failed then .failed
      else .stopping }

namespace Core

variable {c c' d : Core}

theorem trimmed_empty : trimSpace "" = "" := by decide +kernel

theorem Fails.ok (h : c.Fails d) (hc : c.Ok) : d.Ok := by
  obtain ⟨stage, reason, -, hreason, rfl⟩ := h
  exact
    { id := hc.id
      sandbox := hc.sandbox
      reason := hreason.2
      clean := by simp
      failed := fun _ => hreason.1
      started := by simp
      running := by simp }

theorem Drops.id_eq (h : c.Drops c') : c'.id = c.id ∧ c'.failure = c.failure ∧
    c'.attempt = c.attempt := by
  rcases h with rfl | rfl <;> simp

theorem Drops.trimmed (h : c.Drops c') (hc : c.Ok) : trimSpace c'.sandboxID = c'.sandboxID := by
  rcases h with rfl | rfl
  · exact hc.sandbox
  · exact trimmed_empty

theorem Finds.ok (h : c.Finds d) (hs : c.status = .creating ∨ c.status = .stopping) (hc : c.Ok) :
    d.Ok := by
  obtain ⟨-, hne, htrim, hd⟩ := h
  rw [hd]
  exact
    { id := hc.id
      sandbox := htrim
      reason := hc.reason
      clean := by rcases hs with hs | hs <;> simp [hs]
      failed := by rcases hs with hs | hs <;> simp [hs]
      started := fun h => hc.started h
      running := fun _ => hne }

theorem Reports.ok (h : c.Reports d) (hs : c.status = .creating) (hc : c.Ok) : d.Ok := by
  rcases h with rfl | ⟨stage, rfl⟩
  · exact hc
  · exact
      { id := hc.id
        sandbox := hc.sandbox
        reason := trimmed_empty
        clean := fun h => hc.clean h
        failed := by simp [hs]
        started := fun h => hc.started h
        running := fun h => hc.running h }

theorem Reports.same (h : c.Reports d) :
    d.attempt = c.attempt ∧ d.status = c.status ∧ d.sandboxID = c.sandboxID := by
  rcases h with rfl | ⟨stage, rfl⟩ <;> simp

end Core

namespace Site

variable {w : Site} {c d : Core}

/-- What is written can be written again. -/
theorem Writes.ok (h : w.Writes c d) (hc : c.Ok) : d.Ok := by
  have hempty := Core.trimmed_empty
  cases w with
  | planning =>
    obtain ⟨hs, rfl⟩ := h
    exact ⟨hc.id, hc.sandbox, hempty, fun _ => hc.clean (by simp [hs]), by simp, by simp, by simp⟩
  | requeue =>
    obtain ⟨hs, rfl⟩ := h
    exact ⟨hc.id, hc.sandbox, hempty, fun _ => hc.clean (by simp [hs]), by simp, by simp, by simp⟩
  | planFailed => exact h.2.ok hc
  | templateFailed =>
    obtain ⟨hs, stage, reason, -, hreason, rfl⟩ := h
    exact ⟨hc.id, hc.sandbox, hreason.2, by simp, fun _ => hreason.1, by simp, by simp⟩
  | creating =>
    obtain ⟨hs, rfl⟩ := h
    exact ⟨hc.id, hc.sandbox, hempty, by simp, by simp, by simp, by simp⟩
  | created => exact h.2.ok (.inl h.1) hc
  | recovered => exact h.2.ok (.inl h.1) hc
  | stopRecovered => exact h.2.ok h.1 hc
  | createFailed =>
    obtain ⟨-, c', hdrops, stage, reason, -, hreason, rfl⟩ := h
    exact ⟨hdrops.id_eq.1 ▸ hc.id, hdrops.trimmed hc, hreason.2, by simp, fun _ => hreason.1,
      by simp, by simp⟩
  | applyFailed =>
    obtain ⟨-, c', hdrops, stage, reason, -, hreason, rfl⟩ := h
    exact ⟨hdrops.id_eq.1 ▸ hc.id, hdrops.trimmed hc, hreason.2, by simp, fun _ => hreason.1,
      by simp, by simp⟩
  | createUnconfirmed => exact h.elim
  | applyStage | checkpoint => exact h.2.ok h.1 hc
  | applyExpired =>
    obtain ⟨-, rfl⟩ := h
    exact ⟨hc.id, hempty, hempty, by simp, by simp, by simp, by simp⟩
  | applyCleanupFailed =>
    obtain ⟨-, -, reason, hreason, rfl⟩ := h
    exact ⟨hc.id, hc.sandbox, hreason.2, by simp, fun _ => hreason.1, by simp, by simp⟩
  | running =>
    obtain ⟨hs, hne, rfl⟩ := h
    exact ⟨hc.id, hc.sandbox, hempty, by simp, by simp, fun _ => hc.started (.inl hs), fun _ => hne⟩
  | recoveryLost => exact h.2.2.ok hc
  | recovery => exact h.2.2.ok hc
  | processExit => exact h.2.ok hc
  | stopping unstarted =>
    obtain ⟨-, -, rfl⟩ := h
    refine ⟨hc.id, hc.sandbox, ?_, by simp, by simp, by simp, by simp⟩
    dsimp only
    split
    · exact hc.reason
    · exact hempty
  | stopCleanupFailed =>
    obtain ⟨-, -, stage, reason, hreason, -, -, rfl⟩ := h
    exact ⟨hc.id, hc.sandbox, hreason.2, by simp, fun _ => hreason.1, by simp, by simp⟩
  | stopped =>
    obtain ⟨-, ⟨hne, -, rfl⟩ | ⟨-, rfl⟩ | ⟨-, rfl⟩⟩ := h
    · exact ⟨hc.id, hempty, hc.reason, by simp, fun _ => hne, by simp, by simp⟩
    · exact ⟨hc.id, hempty, hempty, by simp, by simp, by simp, by simp⟩
    · exact ⟨hc.id, hempty, hc.reason, by simp, by simp, by simp, by simp⟩
  | stopRequested =>
    obtain ⟨-, rfl⟩ := h
    by_cases hq : c.status = .queued
    · simp only [hq, if_true]
      exact ⟨hc.id, hc.sandbox, hc.reason, fun _ => hc.clean (.inl hq), by simp, by simp, by simp⟩
    · by_cases hf : c.status = .failed
      · simp only [hf, if_true, reduceCtorEq, if_false]
        exact ⟨hc.id, hc.sandbox, hc.reason, by simp, fun _ => hc.failed hf, by simp, by simp⟩
      · simp only [hq, hf, if_false]
        exact ⟨hc.id, hc.sandbox, hc.reason, by simp, by simp, by simp, by simp⟩

theorem Writes.same (h : w.Writes c d) : d.id = c.id ∧ d.version = c.version ∧
    d.revisionNumber = c.revisionNumber ∧ d.scope = c.scope := by
  cases w with
  | created | recovered | stopRecovered => rw [h.2.2.2.2]; simp
  | createFailed | applyFailed =>
    obtain ⟨-, c', rfl | rfl, stage, reason, -, -, rfl⟩ := h <;> simp
  | createUnconfirmed => exact h.elim
  | planFailed | processExit =>
    obtain ⟨-, stage, reason, -, -, rfl⟩ := h
    simp
  | templateFailed =>
    obtain ⟨-, stage, reason, -, -, rfl⟩ := h
    simp
  | recoveryLost | recovery =>
    obtain ⟨-, -, stage, reason, -, -, rfl⟩ := h
    simp
  | applyStage | checkpoint => obtain ⟨-, rfl | ⟨stage, rfl⟩⟩ := h <;> simp
  | applyCleanupFailed =>
    obtain ⟨-, -, reason, -, rfl⟩ := h
    simp
  | stopCleanupFailed =>
    obtain ⟨-, -, stage, reason, -, -, -, rfl⟩ := h
    simp
  | stopped => obtain ⟨-, ⟨-, -, rfl⟩ | ⟨-, rfl⟩ | ⟨-, rfl⟩⟩ := h <;> simp
  | running | stopping unstarted =>
    obtain ⟨-, -, rfl⟩ := h
    simp
  | planning | requeue | creating | applyExpired | stopRequested =>
    obtain ⟨-, rfl⟩ := h
    simp

theorem Writes.counts (h : w.Writes c d) (hc : c.Ok) : c.counts = true := by
  have hactive : ∀ {t : DeploymentStatus}, c.status = t → t.active = true → c.counts = true := by
    intro t ht ha
    simp [Core.counts, ht, ha]
  have hover : ¬c.Over → c.counts = true := by
    intro hno
    have hterminal : c.status.terminal = true → c.sandboxID ≠ "" := fun ht he => hno ⟨ht, he⟩
    rcases hs : c.status with _ | _ | _ | _ | _ | _ | _ | _
    case completed | expired => exact absurd (hc.clean (by simp [hs])) (hterminal (by rw [hs]; rfl))
    case failed =>
      have hne := hterminal (by rw [hs]; rfl)
      simp [Core.counts, hs, hne]
    all_goals exact hactive hs rfl
  cases w with
  | stopping unstarted => exact hover h.1
  | stopRequested => exact hover h.1
  | stopRecovered => rcases h.1 with hs | hs <;> exact hactive hs rfl
  | createUnconfirmed => exact h.elim
  | planning | requeue | planFailed | templateFailed | creating | created | recovered | createFailed
  | applyFailed | applyStage | checkpoint | applyExpired | applyCleanupFailed | running
  | recoveryLost | recovery | processExit | stopCleanupFailed | stopped => exact hactive h.1 rfl

end Site

/-! ### Rows -/

section Rows

variable {st : Store} {row d d' : Deployment} {now expiresAt : Time}

theorem Deployment.core_updated (hn : normalizeDeployment d = .ok d') (hok : d.core.Ok)
    (hid : row.id = d.id) (hrevision : row.revisionNumber = d.revisionNumber)
    (hscope : row.scope = d.scope) :
    (row.updated d' now).core = { d.core with version := d.version + 1 } := by
  obtain ⟨_, _, _, rfl⟩ := normalizeDeployment_ok hn
  have hsandbox : trimSpace d.sandboxID = d.sandboxID := hok.sandbox
  have hreason : trimSpace d.failure.reason = d.failure.reason := hok.reason
  simp [core, updated, hid, hrevision, hscope, hsandbox, hreason]

theorem Deployment.core_retried :
    (row.retried d expiresAt now).core =
      { row.core with
        revisionNumber := row.revisionNumber + 1
        status := .queued
        sandboxID := ""
        failure := {}
        error := ""
        expiresAt := expiresAt
        version := d.version + 1 } := rfl

theorem Deployment.core_fillTitle (id ref title : String) :
    (d.fillTitle id ref title).core = d.core := rfl

end Rows

end CiRunner.Deployments
