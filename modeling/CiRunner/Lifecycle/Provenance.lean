import CiRunner.Lifecycle.Runs

/-! The attempts that the sandbox and the service of a row come from. What a writer
leaves of them says when a running row has both from the last attempt of its
request. -/

namespace CiRunner.Lifecycle

open Threads Tables CiRunner.State

def Trail.record (t : Trail) (now : Time) : Writer → Trail
  | .creating => { t with attempts := t.attempts + 1, attemptAt := now }
  | .running n => { t with sandboxFrom := n }
  | .reconnect (some n) => { t with sandboxFrom := n }
  | .snapshot n => { t with serviceFrom := n }
  | _ => t

theorem trail_record_self (s : State) (w : Writer) (k : String) (now : Time) :
    (s.record w k now).trail k = (s.trail k).record now w := by
  cases w with
  | creating | running | snapshot => simp [State.record, State.trail, Trail.record]
  | reconnect n => cases n <;> simp [State.record, State.trail, Trail.record]
  | _ => rfl

/-- The service of a runner that was started is that of the last attempt, if there is any. -/
def OwnService (t : Trail) (c : Core) : Prop :=
  c.Started → c.service = {} ∨ t.serviceFrom = t.attempts

/-- A running row has the sandbox and the service of the last attempt. -/
def OneAttempt (t : Trail) (c : Core) : Prop :=
  c.status = .running →
    t.sandboxFrom = t.attempts ∧ (c.service = {} ∨ t.serviceFrom = t.attempts)

section Site

variable {stopped : List String} {c d : Core} {w : Writer} {t : Trail} {now : Time}

/-- The writers that leave a row in creation or running, other than the creating write. -/
inductive Leaves (c d : Core) : Writer → Prop
  | adopt (n : Nat) (status : c.status = .creating) (service : d.service = c.service) :
      Leaves c d (.running n)
  | reconnect (n : Option Nat) (status : d.status = .running) (started : c.Started)
      (service : d.service = c.service) (recovered : n = none → c.sandboxID ≠ "") :
      Leaves c d (.reconnect n)
  | snapshot (n : Nat) (service : ServiceSnapshot) (eq : d = { c with service := service }) :
      Leaves c d (.snapshot n)
  | busy (started : c.Started) (provisioned : c.sandboxID ≠ "") (service : d.service = c.service)
      (process : d.processPID = c.processPID) (moves : Moves c d .running) : Leaves c d .exitBusy
  | same {w : Writer} (record : ∀ t now, Trail.record t now w = t) (eq : d = c) : Leaves c d w

theorem Site.leaves (h : Site stopped c d w) (hw : w ≠ .creating) (hd : d.Started) :
    Leaves c d w := by
  have hout : ∀ {status : Status}, d.status = status → status ≠ .creating →
      status ≠ .running → Leaves c d w := by
    intro status hs hc hr
    rcases hd with hd | hd
    · exact absurd (hs.symm.trans hd) hc
    · exact absurd (hs.symm.trans hd) hr
  cases w with
  | creating => exact absurd rfl hw
  | running n => exact .adopt n h.1 h.2.2.1
  | snapshot n => obtain ⟨service, he⟩ := h; exact .snapshot n service he
  | exitBusy => exact .busy h.1 h.2.1 h.2.2.1.1 h.2.2.1.2 h.2.2.2
  | reconnect n =>
    refine .reconnect n h.2.1 h.1 h.2.2.1 fun hn he => ?_
    have hsome := h.2.2.2.2.2 he
    rw [hn] at hsome
    cases hsome
  | jobCheckCleared | jobStarted | jobInProgress | exitJobResult | stopConflictResult
  | stopCompletedResult | recoverLease | wake => exact .same (fun _ _ => rfl) h
  | skipped | mismatchCompleted => exact hout h.2.status_eq nofun nofun
  | failStart | retryOrFail =>
    obtain hs | he := h.outcome
    · exact hout hs nofun nofun
    · exact hout (congrArg Core.status he) nofun nofun
  | jobCheckDeferred =>
    obtain ⟨-, -, -, he | h⟩ := h
    · exact hout (congrArg Core.status he) nofun nofun
    · exact hout h.status_eq nofun nofun
  | deferQueued => exact hout ((congrArg Core.status h.2).trans h.1) nofun nofun
  | deferCreating => exact hout (congrArg Core.status h.2.2) nofun nofun
  | jitRetained | stopping | forceStopping | stopFailed | forceStopFailed | stopCleanupFailed
  | forceFailed | jitFailed | completeObserved => exact hout h.status_eq nofun nofun
  | jitInterrupted | exitStopping | exitCleanupRetry | stopRetry | stopCleanupRetry
  | forceCleanupRetry => exact hout h.2.status_eq nofun nofun
  | exitFinal =>
    obtain h | ⟨-, he | h | h, -⟩ := h
    · exact hout h.status_eq nofun nofun
    · exact hout (congrArg Core.status he) nofun nofun
    · exact hout h nofun nofun
    · exact hout h.status_eq nofun nofun
  | lateExit => exact hout h.2.2.2.status_eq h.2.1 h.2.2.1
  | requeueInterrupted | mismatchRequeued =>
    exact hout (congrArg Core.status h.2) nofun nofun
  | stopFinal => obtain ⟨-, h | h⟩ := h <;> exact hout h.status_eq nofun nofun
  | mismatchKept =>
    obtain ⟨hs | hs, h⟩ := h <;> exact hout (h.status_eq.trans hs) nofun nofun
  | jitRequeued => exact hout h.2.1 nofun nofun
  | historical => exact hout (congrArg Core.status h.2.2) nofun nofun

theorem Core.Started.of_stamp (h : (d.stamp now).Started) : d.Started := by
  rwa [Core.Started, status_stamp] at h

theorem Site.ownService (h : Site stopped c d w) (hw : w ≠ .creating)
    (hsnapshot : ∀ n, w = .snapshot n → t.attempts = n) (ht : OwnService t c) :
    OwnService (t.record now w) (d.stamp now) := by
  intro hd
  rw [service_stamp]
  cases h.leaves hw hd.of_stamp with
  | adopt n hs hservice =>
    rw [hservice]
    exact ht (.inl hs)
  | reconnect n _ hs hservice =>
    rw [hservice]
    cases n <;> exact ht hs
  | snapshot n service he => exact .inr (hsnapshot n rfl).symm
  | busy hs _ hservice =>
    rw [hservice]
    exact ht hs
  | same hrecord he =>
    subst he
    rw [hrecord]
    exact ht hd.of_stamp

theorem running_of_sandbox (hc : CoreOk c) (hs : c.Started) (hne : c.sandboxID ≠ "") :
    c.status = .running :=
  hs.resolve_left fun he => hne (hc.unprovisioned (.inr he))

theorem Site.oneAttempt (h : Site stopped c d w) (hc : CoreOk c)
    (hrunning : ∀ n, w = .running n → t.attempts = n ∧ OwnService t c)
    (hsnapshot : ∀ n, w = .snapshot n → t.attempts = n)
    (hreconnect : ∀ n, w = .reconnect n → (∀ m, n = some m → t.attempts = m) ∧
      (c.service = {} ∨ t.serviceFrom = t.attempts))
    (ht : OneAttempt t c) : OneAttempt (t.record now w) (d.stamp now) := by
  intro hd
  rw [status_stamp] at hd
  rw [service_stamp]
  have hw : w ≠ .creating := by
    rintro rfl
    rw [h.2] at hd
    cases hd
  cases h.leaves hw (.inr hd) with
  | adopt n hs hservice =>
    obtain ⟨hn, hown⟩ := hrunning n rfl
    rw [hservice]
    exact ⟨hn.symm, hown (.inl hs)⟩
  | reconnect n _ hs hservice hsome =>
    obtain ⟨hn, hown⟩ := hreconnect n rfl
    rw [hservice]
    cases n with
    | none => exact ⟨(ht (running_of_sandbox hc hs (hsome rfl))).1, hown⟩
    | some m => exact ⟨(hn m rfl).symm, hown⟩
  | snapshot n service he =>
    have hs : c.status = .running := by
      rw [he] at hd
      exact hd
    exact ⟨(ht hs).1, .inr (hsnapshot n rfl).symm⟩
  | busy hs hne hservice =>
    rw [hservice]
    exact ht (running_of_sandbox hc hs hne)
  | same hrecord he =>
    subst he
    rw [hrecord]
    exact ht hd

theorem Site.process_kept (h : Site stopped c d w) (hd : d.status = .running) :
    (∃ n, w = .running n) ∨ (∃ n, w = .reconnect n) ∨
    (d.sandboxID = c.sandboxID ∧ d.processPID = c.processPID) := by
  have hw : w ≠ .creating := by
    rintro rfl
    rw [h.2] at hd
    cases hd
  cases h.leaves hw (.inr hd) with
  | adopt n => exact .inl ⟨n, rfl⟩
  | reconnect n => exact .inr (.inl ⟨n, rfl⟩)
  | snapshot n service he => rw [he]; exact .inr (.inr ⟨rfl, rfl⟩)
  | busy _ _ _ hp hm => exact .inr (.inr ⟨hm.sandboxID_eq, hp⟩)
  | same _ he => rw [he]; exact .inr (.inr ⟨rfl, rfl⟩)

end Site

end CiRunner.Lifecycle
