import CiRunner.Lifecycle.Runs

/-! The sandbox id of a row is the only evidence of a sandbox that may be alive. A
stop, an exit and a recovery drop it only once the sandbox is gone; four writers
drop it whatever has become of the sandbox, and the evidence is safe in the runs in
which they find none that is still needed. -/

namespace CiRunner.Lifecycle

open Threads Tables CiRunner.State Text

/-- The writers that clear the sandbox of a row without a stop of their own. -/
def Writer.clears : Writer → Bool
  | .failStart _ | .retryOrFail | .mismatchRequeued => true
  | _ => false

section Site

variable {stopped : List String} {c d : Core} {w : Writer}

theorem Core.Gone.mem (h : c.Gone stopped) (hne : c.sandboxID ≠ "") : c.sandboxID ∈ stopped :=
  h.resolve_left hne

/-- Every other writer keeps the sandbox of a row, or has stopped it before. -/
theorem Site.sandbox_kept (h : Site stopped c d w) (hc : CoreOk c) (hne : c.sandboxID ≠ "")
    (hw : w.clears = false) : d.sandboxID = c.sandboxID ∨ c.sandboxID ∈ stopped := by
  have hprovisioned : c.status ≠ .creating := fun hs => hne (hc.unprovisioned (.inr hs))
  cases w with
  | failStart | retryOrFail | mismatchRequeued => cases hw
  | creating | deferQueued => obtain ⟨-, rfl⟩ := h; exact .inl rfl
  | running | requeueInterrupted => exact absurd h.1 hprovisioned
  | skipped => exact absurd h.1 hne
  | snapshot => obtain ⟨service, rfl⟩ := h; exact .inl rfl
  | jobCheckDeferred | deferCreating | historical => exact absurd h.2.1 hne
  | jitRetained | stopping | forceStopping | stopFailed | forceStopFailed | stopCleanupFailed
  | forceFailed | jitFailed | completeObserved => exact .inl h.sandboxID_eq
  | jitInterrupted | exitStopping | exitCleanupRetry | stopRetry | stopCleanupRetry
  | forceCleanupRetry | mismatchKept | mismatchCompleted => exact .inl h.2.sandboxID_eq
  | jobCheckCleared | jobStarted | jobInProgress | exitJobResult | stopConflictResult
  | stopCompletedResult | recoverLease | wake => cases h; exact .inl rfl
  | exitBusy | lateExit => exact .inl h.2.2.2.sandboxID_eq
  | exitFinal =>
    obtain h | ⟨hgone, -⟩ := h
    · exact .inl h.sandboxID_eq
    · exact .inr (hgone.mem hne)
  | reconnect => exact .inl (h.2.2.2.2.1 hne).1
  | stopFinal | jitRequeued => exact .inr (h.1.mem hne)

end Site

/-! ### Runs that keep the evidence -/

variable (cfg : Settings)

instance (stopped : List String) (c : Core) : Decidable (c.Gone stopped) :=
  inferInstanceAs (Decidable (_ ∨ _))

def retries : Call → Option RunnerState
  | .retryUpdate record _ => some record
  | _ => none

/-- No claim is overtaken, and a failed start, a creation that timed out, the requeue of a
completed request and a retry by hand find a row without a sandbox or with one that is stopped. -/
def ClearsStopped : (machine cfg).Condition := fun i c x s =>
  NotOvertaken cfg i c x s ∧
  WritesFind cfg (fun _ s w _ r => w.clears = true → (core r).Gone s.stopped) i c x s ∧
  ∀ record, retries c = some record → x.fails = false → ∀ r, s.rows.find record.id = some r →
    r.version = record.version → (core r).Gone s.stopped

instance (i : Nat) (c : Call) (x : Choice) (s : State) : Decidable (ClearsStopped cfg i c x s) :=
  inferInstanceAs (Decidable (_ ∧ _ ∧ ∀ record, retries c = some record → x.fails = false → ∀ r,
    s.rows.find record.id = some r → r.version = record.version → (core r).Gone s.stopped))

variable {cfg}

/-- A rewrite keeps the sandbox of its row, or the sandbox has been stopped. -/
theorem Rewrite.sandbox_kept {i : Nat} {κ : Know} {x : Choice} {c : Call} {s : State}
    {r r' : RunnerState} (h : Rewrite κ x c r r') (hr : RowOk r) (hκ : Holds i κ s)
    (hok : ClearsStopped cfg i c x s) (hx : x.fails = false) (hf : s.rows.find r.id = some r)
    (hne : r.sandboxID ≠ "") : r'.sandboxID = r.sandboxID ∨ r.sandboxID ∈ s.stopped := by
  cases h with
  | @write w st b _ _ _ _ hkey hversion hsite _ =>
    have hcore : (st.written r x.now).sandboxID = (core st).sandboxID :=
      (congrArg Core.sandboxID (core_written st r x.now)).trans (sandboxID_stamp _ _)
    rcases hw : w.clears with _ | _
    · obtain h | h := hsite.sandbox_kept hr.core hne hw
      · exact .inl (hcore.trans h)
      · exact .inr (hκ.stopped _ h)
    · have hgone := hok.2.1.row hx hf hkey hversion hw
      exact .inr (hgone.mem hne)
  | claim => exact .inl rfl
  | release => exact .inl rfl
  | @retry record _ _ _ hsame _ =>
    have hid : record.id = r.id :=
      (congrArg RunnerState.id hsame : record.clearLease.id = r.clearLease.id)
    have hgone := hok.2.2 record rfl hx r (by rw [hid]; exact hf)
      (versioning.version_eq hsame).symm
    exact .inr (hgone.mem hne)

/-- In every run whose steps all meet the condition, a step that drops or replaces the sandbox of
a row finds it stopped: a stop of it had succeeded or had reported it gone. -/
theorem sandbox_evidence_kept {c c' : Config Reply State} {d : Decision Choice Op}
    (hr : (machine cfg).Reaches (ClearsStopped cfg) .empty c)
    (hm : (machine cfg).Meets (ClearsStopped cfg) c d) (h : (machine cfg).step c d = some c')
    {k : String} {r r' : RunnerState} (hf : c.state.rows.find k = some r)
    (hf' : c'.state.rows.find k = some r') (hne : r.sandboxID ≠ "")
    (hdropped : r'.sandboxID ≠ r.sandboxID) : r.sandboxID ∈ c.state.stopped := by
  have himp : ∀ i c x s, ClearsStopped cfg i c x s → NotOvertaken cfg i c x s :=
    fun _ _ _ _ hok => hok.1
  obtain rfl | ⟨i, x, e, l, κ, hid, -, -, hκ, hok, hx, hrow⟩ := row_rewritten himp hr hm h hf hf'
  · exact absurd rfl hdropped
  · have hkept := hrow.sandbox_kept (rowsOk_of_reaches himp hr k r hf) hκ hok hx
      (by rw [hid]; exact hf) hne
    exact hkept.resolve_left hdropped

/-- A runner exits before it has taken a job: its sandbox is stopped, and the request goes back to
the queue without it. -/
theorem sandbox_evidence_kept_exit : ∃ c c' r r',
    (machine oneRunner).Reaches (ClearsStopped oneRunner) .empty c ∧
    (machine oneRunner).step c (.run 2 { ticks := 9 }) = some c' ∧
    c.state.rows.find "1" = some r ∧ c'.state.rows.find "1" = some r' ∧
    r.sandboxID = "s1" ∧ r'.sandboxID = "" ∧ "s1" ∈ c.state.stopped := by
  obtain ⟨c, c', hr, hm, h, hp⟩ := Machine.exists_step_of_execMeeting (M := machine oneRunner)
    (ClearsStopped oneRunner) (s := .empty)
    (provisioned 5 ++ calls 1 6 { ticks := 3 } ++
      .start (.runnerExited "1" ⟨"s1", 7⟩ {} none) :: calls 2 6 { ticks := 8 })
    (.run 2 { ticks := 9 })
    (testRow "1" fun _ r r' => r.sandboxID = "s1" && r'.sandboxID = "") (by decide +kernel)
  obtain ⟨r, r', hf, hf', hrow⟩ := of_testRow hp
  simp only [Bool.and_eq_true, decide_eq_true_eq] at hrow
  have hkept := sandbox_evidence_kept hr hm h hf hf' (by rw [hrow.1]; decide)
    (by rw [hrow.1, hrow.2]; decide)
  exact ⟨c, c', r, r', hr, h, hf, hf', hrow.1, hrow.2, hrow.1 ▸ hkept⟩

/-- The sweeper lists a request while its runner is created and gives up on it after the runner
has been adopted: the row loses a sandbox that nothing has stopped. -/
theorem sandbox_dropped_by_sweeper : ∃ c c' d r r',
    (machine oneRunner).Reachable .empty c ∧ (machine oneRunner).step c d = some c' ∧
    c.state.rows.find "1" = some r ∧ c'.state.rows.find "1" = some r' ∧
    r.sandboxID = "s1" ∧ r'.sandboxID = "" ∧ "s1" ∉ c.state.stopped := by
  obtain ⟨c, c', hr, h, hp⟩ := Machine.exists_step_of_exec (M := machine oneRunner) (s := .empty)
    (provisioned 0 ++ .start .sweepOnce :: calls 2 2 { ticks := 200 } ++
      calls 1 6 { ticks := 201 } ++ calls 2 3 { ticks := 202 })
    (.run 2 { ticks := 203 })
    (testRow "1" fun s r r' => r.sandboxID = "s1" && r'.sandboxID = "" && !s.stopped.contains "s1")
    (by decide +kernel)
  obtain ⟨r, r', hf, hf', hrow⟩ := of_testRow hp
  simp only [Bool.and_eq_true, decide_eq_true_eq, Bool.not_eq_true', List.contains_eq_mem,
    decide_eq_false_iff_not] at hrow
  exact ⟨c, c', _, r, r', hr, h, hf, hf', hrow.1.1, hrow.1.2, hrow.2⟩

end CiRunner.Lifecycle
