import CiRunner.Lifecycle.StartOutline

/-! The programs that stop a runner and those that clean up after one follow the
outline. -/

namespace CiRunner.Lifecycle

open Threads CiRunner.State Text

variable {cfg : Settings} {R : Reading cfg} {κ κ' : Know} {id : String} {st b r : RunnerState}

/-! ### Rows that are being stopped -/

/-- The state `st` is based on the row `b`, which is being stopped with the same sandbox, the same
count of retries and the same time of failure, and is marked if the state is. -/
structure StopCopy (κ : Know) (st b : RunnerState) : Prop where
  copy : CopyOf κ st b
  status_eq : b.status = .stopping
  sandboxID_eq : st.sandboxID = b.sandboxID
  marked : Marked st → Marked b
  retryCount_eq : st.retryCount = b.retryCount
  failedAt_eq : st.failedAt = b.failedAt

theorem StopCopy.keeps (h : StopCopy κ st b) (hk : Keeps κ κ') : StopCopy κ' st b :=
  ⟨h.copy.keeps hk, h.status_eq, h.sandboxID_eq, h.marked, h.retryCount_eq, h.failedAt_eq⟩

theorem StopCopy.edit (h : StopCopy κ st b) (st' : RunnerState) (hk : rowKey st' = rowKey st)
    (hs : st'.sandboxID = st.sandboxID) (hr : Marked st' → Marked st)
    (hc : st'.retryCount = st.retryCount) (hf : st'.failedAt = st.failedAt) : StopCopy κ st' b :=
  ⟨h.copy.edit hk, h.status_eq, hs.trans h.sandboxID_eq, fun h' => h.marked (hr h'),
    hc.trans h.retryCount_eq, hf.trans h.failedAt_eq⟩

theorem Written.stopCopy {w : Writer} (h : Written st r) (hs : st.status = .stopping) :
    StopCopy (κ.wrote w (some r)) (nextVersion st) r := by
  have ha := h.account_eq (by rw [hs]; nofun)
  simp only [account, Prod.mk.injEq] at ha
  obtain ⟨-, hr, hc, hf⟩ := ha
  exact ⟨h.copy, h.status_eq.trans hs, h.sandboxID_eq.symm, fun hm => hr.trans hm, hc.symm,
    hf.symm⟩

theorem StopCopy.ended {m : Nat} {w : Writer} {st' : RunnerState} (h : StopCopy κ st b)
    (hfinds : w.Finds b) (hs : st'.status = .failed ∨ st'.status = .completed)
    (hr : Marked st' → Marked st) (hc : st'.retryCount = st.retryCount)
    (hf : st'.status = .completed → st'.failedAt = st.failedAt) : Accounts m b st' w :=
  accounts_ended hfinds hs (fun h' => h.marked (hr h')) (hc.trans h.retryCount_eq)
    fun hd => (hf hd).trans h.failedAt_eq

theorem StopCopy.stopping {m : Nat} {w : Writer} {st' : RunnerState} (h : StopCopy κ st b)
    (hfinds : w.Finds b) (hs : st'.status = .stopping) (hr : Marked st' → Marked st)
    (hc : Counts m st.retryCount st'.retryCount) (hf : st'.failedAt = st.failedAt) :
    Accounts m b st' w :=
  accounts_stopping hfinds hs (fun h' => .inr (h.marked (hr h'))) (h.retryCount_eq ▸ hc)
    (hf.trans h.failedAt_eq)

theorem StopCopy.again {m : Nat} {w : Writer} {next : RunnerState} (h : StopCopy κ st b)
    (hfinds : w.Finds b) (hn : next.status = .stopping ∧ (Marked next → Marked st) ∧
      Counts m st.retryCount next.retryCount ∧ next.failedAt = st.failedAt) :
    Accounts m b next w :=
  h.stopping hfinds hn.1 hn.2.1 hn.2.2.1 hn.2.2.2

/-- The stop fails for a reason of its own. -/
theorem StopCopy.fails {m : Nat} {w : Writer} {stage : Stage} {reason error : String}
    (h : StopCopy κ st b) (hfinds : w.Finds b) (hr : reason ≠ "jit_cleanup_pending") :
    Accounts m b (failWith st stage reason error) w :=
  h.ended hfinds (.inl rfl) (fun hm => absurd hm (unmarked_failWith hr)) rfl nofun

theorem StopCopy.moves {st' : RunnerState} {status : Status} (h : StopCopy κ st b)
    (hm : Moves (core st) (core st') status) : Moves (core b) (core st') status :=
  ⟨hm.status_eq, hm.sandboxID_eq.trans h.sandboxID_eq⟩

def SandboxGone (κ : Know) (st : RunnerState) : Prop := st.sandboxID = "" ∨ st.sandboxID ∈ κ.stopped

theorem SandboxGone.keeps (h : SandboxGone κ st) (hk : Keeps κ κ') : SandboxGone κ' st :=
  h.imp id fun h => hk.stopped _ h

theorem StopCopy.gone (h : StopCopy κ st b) (hg : SandboxGone κ st) :
    (core b).Gone κ.stopped := by
  unfold SandboxGone at hg
  rw [h.sandboxID_eq] at hg
  exact hg

theorem follows_stopSandboxOf (st : RunnerState) :
    R.part.Follows (fun κ' a => a = none → SandboxGone κ' st) κ (stopSandboxOf st) := by
  unfold stopSandboxOf
  split
  · rename_i hs
    exact Outline.follows_pure fun _ => .inl hs
  · exact (follows_stopSandbox st.sandboxID).mono fun _ _ h hn => .inr (h hn)

theorem follows_originalWorkflowJobQueued (st : RunnerState) :
    R.part.Follows (fun _ _ => True) κ (originalWorkflowJobQueued st) := by
  unfold originalWorkflowJobQueued
  split
  · exact Outline.follows_pure trivial
  · refine follows_quiet rfl fun answer _ => ?_
    cases answer <;> exact Outline.follows_pure trivial

theorem follows_queuedOrUnknown (st : RunnerState) :
    R.part.Follows (fun _ _ => True) κ (queuedOrUnknown st) := by
  refine follows_seq (follows_originalWorkflowJobQueued st) fun _ queued _ _ => ?_
  cases queued <;> exact Outline.follows_pure trivial

/-! ### Stops that are asked for -/

/-- What the caller of a stop may rely on: a runner that was left alone is as it was read. -/
def Untouched (id : String) (κ : Know) (reply : Option RunnerState) : Prop :=
  ∀ st, reply = some st → isStarted st = true →
    ∃ b, CopyOf κ st b ∧ core st = core b ∧ RowOk b ∧ st.id = sanitizeID id

theorem untouched_none : Untouched id κ none := fun _ h => by cases h

theorem untouched_of_status (h : st.status ≠ .creating ∧ st.status ≠ .running) :
    Untouched id κ (some st) := by
  intro st' he hs
  cases he
  simp [isStarted, h] at hs

theorem follows_requeueMismatchedWorkflowJob (hcopy : CopyOf κ st b) (hst : st.status = b.status)
    (hs : b.status = .stopping ∨ b.status = .completed) (hsandbox : st.sandboxID = b.sandboxID)
    (hg : (core b).Gone κ.stopped ∨ b.status = .completed) (hr : Marked st → Marked b)
    (hc : st.retryCount = b.retryCount) (hf : st.failedAt = b.failedAt) (queued : Bool) :
    R.part.Follows (fun κ' a => ∀ requeued next, a = some (requeued, next) →
      if requeued = true then next.status = .queued
      else ∃ r, CopyOf κ' next r ∧ r.sandboxID = b.sandboxID ∧ next.sandboxID = r.sandboxID ∧
        next.retryCount = r.retryCount ∧ next.failedAt = r.failedAt) κ
      (requeueMismatchedWorkflowJob st queued) := by
  unfold requeueMismatchedWorkflowJob
  dsimp only
  cases queued with
  | false =>
    simp only [Bool.not_false, if_true]
    refine follows_write ⟨by decide, rfl⟩ (b := b) ⟨hcopy.edit rfl, ⟨hs, hst, hsandbox⟩, trivial,
      accounts_kept rfl trivial hst hr hc hf, trivial⟩ ?_ ?_
    · exact Outline.follows_pure fun _ _ h => by cases h
    · refine fun r hr => Outline.follows_pure fun _ _ h => ?_
      cases h
      have ha := hr.account_eq (by rw [hst]; rcases hs with hs | hs <;> rw [hs] <;> nofun)
      simp only [account, Prod.mk.injEq] at ha
      exact ⟨r, hr.copy, hr.sandboxID_eq.trans hsandbox, hr.sandboxID_eq.symm, ha.2.2.1.symm,
        ha.2.2.2.symm⟩
  | true =>
    simp only [Bool.not_true, Bool.false_eq_true, if_false]
    refine follows_write ⟨by decide, rfl⟩ (b := b) ⟨hcopy.edit (rowKey_requeueMismatched st),
      ⟨hg, core_requeueMismatched st⟩, trivial, accounts_requeued trivial
      (account_requeueMismatched st) rfl (fun _ => hc) (.inr ⟨rfl, rfl⟩) (.inr rfl), trivial⟩ ?_ ?_
    · exact Outline.follows_pure fun _ _ h => by cases h
    · refine fun r hr => Outline.follows_pure fun _ _ h => ?_
      cases h
      rfl

theorem follows_finishMismatched (h : StopCopy κ st b) (hst : st.status = .stopping)
    (hg : SandboxGone κ st) : R.part.Follows (Untouched id) κ (finishMismatched st) := by
  refine follows_seq (follows_queuedOrUnknown st) fun κ₁ queued _ h₁ => ?_
  have hcopy := h.keeps h₁
  have hgone := hcopy.gone (hg.keeps h₁)
  refine follows_seq (follows_requeueMismatchedWorkflowJob hcopy.copy (hst.trans h.status_eq.symm)
    (.inl h.status_eq) h.sandboxID_eq (.inl hgone) h.marked h.retryCount_eq h.failedAt_eq queued)
    fun κ₂ a ha h₂ => ?_
  match a with
  | none => exact Outline.follows_pure untouched_none
  | some (true, next) =>
    have hq : next.status = .queued := ha true next rfl
    exact Outline.follows_pure (untouched_of_status (by simp [hq]))
  | some (false, next) =>
    obtain ⟨r, hr, hrs, hrn, hrc, hrf⟩ := ha false next rfl
    have hgone' : (core r).Gone κ₂.stopped := by
      have h : r.sandboxID = "" ∨ r.sandboxID ∈ κ₁.stopped := by rw [hrs]; exact hgone
      exact h.imp (fun h => h) (h₂.stopped _)
    refine follows_quiet rfl fun now _ => follows_write ⟨by decide, rfl⟩ (b := r) ⟨hr.edit rfl,
      ⟨hgone', rfl, hrn⟩, trivial, accounts_ended trivial (.inr rfl)
      (fun hm => absurd hm (unmarked_of_empty rfl)) hrc fun _ => hrf, trivial⟩ ?_ ?_
    · exact Outline.follows_pure untouched_none
    · exact fun _ _ => Outline.follows_pure (untouched_of_status (by simp))

theorem follows_finishStopRunner (h : StopCopy κ st b) (hg : SandboxGone κ st) :
    R.part.Follows (Untouched id) κ (finishStopRunner st) := by
  refine follows_quiet rfl fun now _ => ?_
  have hm := moves_finishStop st now
  obtain ⟨hstatus, hmark, hcount, hfailed⟩ := finishStop_account st now
  refine follows_write ⟨by decide, rfl⟩ (b := b) ⟨h.copy.edit (rowKey_finishStop st now),
    ⟨h.gone hg, hm.imp h.moves h.moves⟩, trivial, h.ended trivial hstatus hmark hcount hfailed,
    trivial⟩ ?_ ?_
  · exact Outline.follows_pure untouched_none
  · refine fun _ _ => Outline.follows_pure (untouched_of_status ?_)
    obtain hm | hm := hm
    · have hs : (finishStop st now).status = .failed := hm.status_eq
      simp [hs]
    · have hs : (finishStop st now).status = .completed := hm.status_eq
      simp [hs]

def KnownJob (κ : Know) (st b : RunnerState) : Prop :=
  ∃ e ∈ κ.rows, e.id = b.id ∧ e.workflowJobID = st.workflowJobID

theorem KnownJob.keeps (h : KnownJob κ st b) (hk : Keeps κ κ') : KnownJob κ' st b :=
  have ⟨e, he, h⟩ := h
  ⟨e, hk.rows e he, h⟩

theorem follows_finishJITCleanup (h : StopCopy κ st b) (hg : SandboxGone κ st)
    (hmark : Marked st) (hjob : KnownJob κ st b) : R.part.Follows (Untouched id) κ (finishJITCleanup st) := by
  unfold finishJITCleanup
  split
  · refine follows_quiet rfl fun now _ => ?_
    dsimp only
    refine follows_write ⟨by decide, rfl⟩ (b := b) ⟨h.copy.edit rfl, h.moves ⟨rfl, rfl⟩, trivial,
      h.ended trivial (.inl rfl) (fun _ => hmark) rfl nofun, trivial⟩ ?_ ?_
    · exact Outline.follows_pure untouched_none
    · exact fun _ _ => Outline.follows_pure (untouched_of_status (by simp [nextVersion]))
  · rename_i hne
    refine follows_seq (follows_queuedOrUnknown st) fun κ₁ queued _ h₁ => ?_
    have h' := h.keeps h₁
    have hg' := hg.keeps h₁
    split
    · obtain ⟨e, he, hid, hj⟩ := hjob.keeps h₁
      refine follows_write ⟨by decide, rfl⟩ (b := b) ⟨h'.copy.edit (rowKey_requeueAfterJITCleanup st),
        ⟨h'.gone hg', rfl, rfl⟩, trivial, accounts_requeued (h.marked hmark)
        (account_requeueAfterJITCleanup st) rfl (fun _ => h.retryCount_eq) (.inl h.failedAt_eq)
        (.inr rfl), e, he, hid, hj ▸ hne⟩ ?_ ?_
      · exact Outline.follows_pure untouched_none
      · exact fun _ _ => Outline.follows_pure
          (untouched_of_status (by simp [nextVersion, requeueAfterJITCleanup]))
    · exact follows_finishStopRunner (h'.edit (clearFailure st) rfl rfl
        (fun hm => absurd hm (unmarked_of_empty rfl)) rfl rfl) hg'

theorem follows_cleanupStoppedRunner (h : StopCopy κ st b) (hst : st.status = .stopping)
    (hg : SandboxGone κ st) (hjob : KnownJob κ st b) (job : WorkflowJob) :
    R.part.Follows (Untouched id) κ (cleanupStoppedRunner cfg st job) := by
  refine (follows_cleanupGitHubRunner st).bind fun κ₁ err he => ?_
  subst he
  cases err with
  | some err =>
    refine follows_quiet rfl fun now _ => ?_
    rcases hn : scheduleCleanupRetry cfg st err now with _ | next
    · dsimp only
      refine follows_write ⟨by decide, rfl⟩ (b := b) ⟨h.copy.edit rfl, h.moves ⟨rfl, rfl⟩, trivial,
        h.fails trivial (by decide), trivial⟩ ?_ ?_
      · exact Outline.follows_pure untouched_none
      · exact fun _ _ => Outline.follows_pure untouched_none
    · dsimp only
      obtain ⟨hkey, hm⟩ := scheduleCleanupRetry_eq_some hn
      refine follows_write ⟨by decide, rfl⟩ (b := b) ⟨h.copy.edit hkey, ⟨h.status_eq, h.moves hm⟩,
        trivial, h.again trivial (scheduleCleanupRetry_account hn), trivial⟩ ?_ ?_
      · exact Outline.follows_pure untouched_none
      · refine fun _ _ => Outline.follows_pure (untouched_of_status ?_)
        have hs : (nextVersion next).status = .stopping := hm.status_eq
        simp [hs]
  | none =>
    dsimp only
    split
    · exact follows_finishMismatched h hst hg
    · split
      · rename_i hmark
        exact follows_finishJITCleanup h hg hmark hjob
      · exact follows_finishStopRunner h hg

theorem follows_finishStopping (id : String) (h : StopCopy κ st b) (hst : st.status = .stopping)
    (hjob : KnownJob κ st b) (job : WorkflowJob) : R.part.Follows (Untouched id) κ (finishStopping cfg st job) := by
  refine follows_seq (follows_stopSandboxOf st) fun κ₁ err hg h₁ => ?_
  have h' := h.keeps h₁
  cases err with
  | none => exact follows_cleanupStoppedRunner h' hst (hg rfl) (hjob.keeps h₁) job
  | some err =>
    refine follows_quiet rfl fun now _ => ?_
    rcases hn : scheduleStopRetry cfg st err now with _ | next
    · dsimp only
      refine follows_write ⟨by decide, rfl⟩ (b := b) ⟨h'.copy.edit rfl, h'.moves ⟨rfl, rfl⟩, trivial,
        h'.fails trivial (by decide), trivial⟩ ?_ ?_
      · exact Outline.follows_pure untouched_none
      · exact fun _ _ => Outline.follows_pure untouched_none
    · dsimp only
      obtain ⟨hkey, hm⟩ := scheduleStopRetry_eq_some hn
      refine follows_write ⟨by decide, rfl⟩ (b := b) ⟨h'.copy.edit hkey, ⟨h.status_eq, h'.moves hm⟩,
        trivial, h'.again trivial (scheduleStopRetry_account hn), trivial⟩ ?_ ?_
      · exact Outline.follows_pure untouched_none
      · refine fun _ _ => Outline.follows_pure (untouched_of_status ?_)
        have hs : (nextVersion next).status = .stopping := hm.status_eq
        simp [hs]

theorem untouched_read {key : String} (hr : Learned κ key r) (hkey : key = sanitizeID id)
    (hk : Keeps (κ.read r) κ') (hc : core st = core r) (hs : rowKey st = rowKey r) :
    Untouched id κ' (some st) := by
  intro st' he _
  cases he
  refine ⟨r, (hr.copy_edit hs).keeps hk, hc, hr.ok, ?_⟩
  rw [← hkey, ← hr.id_eq]
  exact congrArg Prod.fst hs

theorem moves_stopping (st : RunnerState) (job : WorkflowJob) (source : TerminationSource)
    (now : Time) : Moves (core st) (core (markRunnerCleanupStarted (setTerminationSource
      (recordAssignedJob (retainWorkflowJobResult st job now).1 job) source) now)) .stopping where
  status_eq := rfl
  sandboxID_eq := by
    have h := congrArg Core.sandboxID ((core_recordAssignedJob
      (retainWorkflowJobResult st job now).1 job).trans (core_retain st job now))
    exact (sandboxID_setTerminationSource _ source).trans h

theorem workflowJobID_stopping (st : RunnerState) (job : WorkflowJob) (source : TerminationSource)
    (now : Time) : (markRunnerCleanupStarted (setTerminationSource (recordAssignedJob
      (retainWorkflowJobResult st job now).1 job) source) now).workflowJobID = st.workflowJobID := by
  unfold setTerminationSource recordAssignedJob retainWorkflowJobResult markRunnerCleanupStarted
  dsimp only
  repeat' split
  all_goals rfl

theorem follows_stopRunner (id : String) (job : WorkflowJob) (source : TerminationSource) :
    R.part.Follows (Untouched id) κ (stopRunner cfg id job source) := by
  refine follows_withLock (follows_read (Outline.follows_pure untouched_none) fun r hr => ?_)
  refine follows_quiet rfl fun now _ => ?_
  dsimp only
  have hcore := core_retain r job now
  have hkey := rowKey_retain r job now
  have hcore' := (core_recordAssignedJob (retainWorkflowJobResult r job now).1 job).trans hcore
  have hkey' := (rowKey_recordAssignedJob (retainWorkflowJobResult r job now).1 job).trans hkey
  have hunlock : ∀ κ', Keeps κ' (κ'.unlocked id) := fun κ' =>
    keeps_learn (c := .unlock id) trivial ()
  split
  · split
    · refine follows_write ⟨by decide, rfl⟩ (b := r) ⟨hr.copy_edit hkey, hcore, trivial,
        accounts_same rfl trivial (account_retain r job now), trivial⟩ ?_ ?_
      · exact Outline.follows_pure untouched_none
      · exact fun r' _ => Outline.follows_pure (untouched_read hr rfl
          ((keeps_wrote (w := .stopConflictResult) ⟨by decide, rfl⟩ (some r')).trans (hunlock _))
          hcore hkey)
    · exact Outline.follows_pure (untouched_read hr rfl (hunlock _) hcore hkey)
  · split
    · rename_i hdone
      have hs : (recordAssignedJob (retainWorkflowJobResult r job now).1 job).status =
          .completed := by
        have h := congrArg Core.status (core_recordAssignedJob
          (retainWorkflowJobResult r job now).1 job)
        exact h.trans hdone
      split
      · refine follows_write ⟨by decide, rfl⟩ (b := r) ⟨hr.copy_edit hkey', hcore', trivial,
          accounts_same rfl trivial (by simp), trivial⟩ ?_ ?_
        · exact Outline.follows_pure untouched_none
        · exact fun _ _ => Outline.follows_pure (untouched_of_status (by simp [hs]))
      · exact Outline.follows_pure (untouched_of_status (by simp [hdone]))
    · have hkeyed := (rowKey_setTerminationSource _ source).trans hkey'
      refine follows_write ⟨by decide, rfl⟩ (b := r) ⟨hr.copy_edit hkeyed,
        moves_stopping r job source now, trivial, accounts_marked trivial (by simp), trivial⟩ ?_ ?_
      · exact Outline.follows_pure untouched_none
      · intro r' hr'
        have hid : r.id = r'.id := by
          rw [hr'.key]
          exact hr.ok.key.symm.trans (congrArg sanitizeID (congrArg Prod.fst hkeyed)).symm
        refine (follows_finishStopping id (hr'.stopCopy rfl) rfl ⟨r, List.mem_cons_of_mem _
          (List.mem_cons_self ..), hid, (workflowJobID_stopping r job source now).symm⟩ job).mono
          fun κ' a h st hst hs => ?_
        obtain ⟨b, hb, hc⟩ := h st hst hs
        exact ⟨b, hb.keeps (hunlock κ'), hc⟩

/-! ### Stops after a failure -/

theorem marked_newerText {old new : String} (h : newerText old new = "jit_cleanup_pending")
    (hold : old ≠ "jit_cleanup_pending") : new = "jit_cleanup_pending" := by
  unfold newerText at h
  split at h
  · exact absurd h hold
  · exact h

theorem follows_finishForced_finish (h : StopCopy κ st b) (stage : Stage) {reason : String}
    (hreason : reason ≠ "jit_cleanup_pending") (message : String) (now : Time) :
    R.part.Follows (fun _ _ => True) κ (finishForced.finish stage reason message st now) :=
  follows_writeOrLog ⟨by decide, rfl⟩ (b := b) ⟨h.copy.edit rfl, h.moves ⟨rfl, rfl⟩, trivial,
    h.ended trivial (.inl rfl) (fun hm => marked_newerText hm hreason) rfl nofun, trivial⟩
    fun _ => trivial

theorem follows_finishForced (h : StopCopy κ st b) (stage : Stage) {reason : String}
    (hreason : reason ≠ "jit_cleanup_pending") (message : String) :
    R.part.Follows (fun _ _ => True) κ (finishForced cfg st stage reason message) := by
  refine follows_seq (follows_stopSandboxOf st) fun κ₁ err _ h₁ => ?_
  have h' := h.keeps h₁
  cases err with
  | some err =>
    exact follows_writeOrLog ⟨by decide, rfl⟩ (b := b) ⟨h'.copy.edit rfl, h'.moves ⟨rfl, rfl⟩, trivial,
      h'.fails trivial (by decide), trivial⟩ fun _ => trivial
  | none =>
    refine follows_quiet rfl fun now _ => (follows_cleanupGitHubRunner st).bind fun κ₂ err he => ?_
    subst he
    cases err with
    | none => exact follows_finishForced_finish h' stage hreason message now
    | some err =>
      dsimp only
      split
      · rename_i next hn
        obtain ⟨hkey, hm⟩ := scheduleCleanupRetry_eq_some hn
        exact follows_writeOrLog ⟨by decide, rfl⟩ (b := b) ⟨h'.copy.edit hkey,
          ⟨h.status_eq, h'.moves hm⟩, trivial,
          h'.again trivial (scheduleCleanupRetry_account hn), trivial⟩ fun _ => trivial
      · have hother : "github_runner_cleanup_failed" ≠ "jit_cleanup_pending" := by decide
        have hcopy := h'.edit { st with
          failureStage := some .cleanup
          failureReason := "github_runner_cleanup_failed"
          error := appendError message ("github runner cleanup: " ++ err.text) }
          rfl rfl (fun hm => absurd hm hother) rfl rfl
        exact follows_finishForced_finish hcopy stage hreason message now

theorem follows_failAndStopRunnerVersion (id : String) (expectedVersion : Nat) (stage : Stage)
    {reason : String} (hreason : reason ≠ "jit_cleanup_pending") (message : String) : R.part.Follows (fun _ _ => True) κ
      (failAndStopRunnerVersion cfg id expectedVersion stage reason message) := by
  refine follows_withLock (follows_read (Outline.follows_pure trivial) fun r hr => ?_)
  dsimp only
  split
  · exact Outline.follows_pure trivial
  · split
    · exact Outline.follows_pure trivial
    · refine follows_quiet rfl fun now _ => ?_
      have hs := status_setTerminationSource (markRunnerCleanupStarted r now) .failureCleanup
      have ha := account_setTerminationSource (markRunnerCleanupStarted r now) .failureCleanup
      simp only [account, Prod.mk.injEq] at ha
      refine follows_write ⟨by decide, rfl⟩ (b := r) ⟨hr.copy_edit ?_, ⟨hs, ?_⟩, trivial,
        accounts_stopping trivial hs (fun hm => absurd hm hreason) (.inl ha.2.2.1) ha.2.2.2,
        trivial⟩ ?_ ?_
      · exact rowKey_setTerminationSource (markRunnerCleanupStarted r now) .failureCleanup
      · exact sandboxID_setTerminationSource (markRunnerCleanupStarted r now) .failureCleanup
      · exact Outline.follows_pure trivial
      · exact fun r' hr' => follows_finishForced (hr'.stopCopy hs) stage hreason message

/-! ### Exits -/

theorem follows_recordLateRunnerExitEvidence (h : CopyOf κ st st) (attempt : RunnerAttemptIdentity)
    (result : ExitResult) (err : Option Err) : R.part.Follows (fun _ _ => True) κ
      (recordLateRunnerExitEvidence st attempt result err) := by
  unfold recordLateRunnerExitEvidence
  split
  · exact Outline.follows_pure trivial
  · rename_i hlate
    simp only [not_or, not_and, not_not] at hlate
    have hs : st.status ≠ .queued ∧ st.status ≠ .creating ∧ st.status ≠ .running := by
      have h := hlate.2
      rcases hst : st.status <;> simp_all
    obtain ⟨environment, he⟩ := setEffectiveRunnerVersion_eq st result
    dsimp only
    split
    · split
      · exact Outline.follows_pure trivial
      · refine follows_writeOrLog ⟨by decide, rfl⟩ (b := st)
          ⟨h.edit (rowKey_setEffectiveRunnerVersion st result), ⟨hs.1, hs.2.1, hs.2.2, ?_, ?_⟩,
          trivial, accounts_same rfl trivial (by simp), trivial⟩ fun _ => trivial
        · rw [he]; rfl
        · rw [he]; rfl
    · refine follows_writeOrLog ⟨by decide, rfl⟩ (b := st) ⟨h.edit ?_, ⟨hs.1, hs.2.1, hs.2.2, ?_, ?_⟩,
        trivial, accounts_same rfl trivial (account_setEffectiveRunnerVersion st result),
        trivial⟩ fun _ => trivial
      · exact rowKey_setEffectiveRunnerVersion st result
      · rw [he]; rfl
      · rw [he]; rfl

theorem follows_retainWorkflowJobResultAfterRunnerExit (id : String) :
    R.part.Follows (fun _ _ => True) κ (retainWorkflowJobResultAfterRunnerExit id) := by
  refine follows_seq (Q := fun _ _ => True) (follows_withLock (follows_read_last trivial
    fun _ _ => trivial)) fun κ₁ before _ _ => ?_
  cases before with
  | none => exact Outline.follows_pure trivial
  | some e =>
  dsimp only
  split
  · exact Outline.follows_pure trivial
  · refine follows_quiet rfl fun answer _ => ?_
    cases answer with
    | error err => exact Outline.follows_pure trivial
    | ok job =>
    refine follows_withLock (follows_read (Outline.follows_pure trivial) fun r hr => ?_)
    refine follows_quiet rfl fun now _ => ?_
    split
    · exact Outline.follows_pure trivial
    · split
      · exact follows_writeOrLog ⟨by decide, rfl⟩ (b := r) ⟨hr.copy_edit (rowKey_retain ..),
          core_retain .., trivial, accounts_same rfl trivial (account_retain ..), trivial⟩
          fun _ => trivial
      · exact Outline.follows_pure trivial

theorem site_exitFinal {stopped : List String} (now : Time) (hgone : (core b).Gone stopped)
    (hm : Moves (core b) (core st) .failed ∨ Moves (core b) (core st) .completed) :
    Site stopped (core b) (core (retryRunnerExitedWithoutJob cfg st now)) .exitFinal := by
  obtain he | ⟨hn, he⟩ := core_retryRunnerExitedWithoutJob cfg st now
  · rw [he]
    obtain hm | hm := hm
    · exact .inl hm
    · exact .inr ⟨hgone, .inr (.inr hm), .inr hm.sandboxID_eq⟩
  · exact .inr ⟨hgone, he.imp (fun h => h) .inl, .inl hn⟩

/-- The exit was handled for a row of a runner that was started, and since then the request has not
failed. -/
def FromLive (κ : Know) (b : RunnerState) : Prop :=
  ∃ e ∈ κ.rows, e.id = b.id ∧ live e.status = true ∧ b.failedAt = e.failedAt

theorem FromLive.keeps (h : FromLive κ b) (hk : Keeps κ κ') : FromLive κ' b :=
  have ⟨e, he, h⟩ := h
  ⟨e, hk.rows e he, h⟩

theorem StopCopy.exited (h : StopCopy κ st b) (now : Time)
    (hs : st.status = .failed ∨ st.status = .completed) :
    Accounts cfg.retryMaxAttempts b (retryRunnerExitedWithoutJob cfg st now) .exitFinal := by
  obtain he | ⟨hm, ⟨hfailed, hc⟩ | ⟨hq, hf, hc, hnext⟩⟩ :=
    retryRunnerExitedWithoutJob_account cfg st now
  · rw [he]
    exact h.ended trivial hs (fun hm => hm) rfl fun _ => rfl
  · exact h.ended trivial (.inl hfailed) (fun h' => absurd h' hm) hc fun hd => by
      rw [hfailed] at hd
      cases hd
  · rw [h.retryCount_eq] at hc hnext
    exact accounts_queued trivial hq (.inr hnext) hm (fun _ => hc) (.inr ⟨hf, rfl⟩) (.inr rfl)

theorem follows_finishError (h : StopCopy κ st b) (hl : FromLive κ b) :
    R.part.Follows (fun _ _ => True) κ (finishError cfg st) := by
  refine follows_seq (follows_stopSandboxOf st) fun κ₁ sandboxErr hg h₁ => ?_
  have h' := h.keeps h₁
  have hl' := hl.keeps h₁
  cases sandboxErr with
  | none =>
    have hgone := h'.gone (hg rfl)
    refine follows_quiet rfl fun now _ => (follows_cleanupGitHubRunner st).bind fun κ₂ err he => ?_
    subst he
    cases err with
    | none =>
      have hf := h'.edit { st with status := .failed } rfl rfl (fun hm => hm) rfl rfl
      simp only [Option.isNone_none, if_true]
      exact follows_writeOrLog ⟨by decide, rfl⟩ (b := b) ⟨hf.copy.edit
        (rowKey_retryRunnerExitedWithoutJob cfg { st with status := .failed } now),
        site_exitFinal now hgone (.inl (h'.moves ⟨rfl, rfl⟩)), trivial,
        hf.exited now (.inl rfl), hl'⟩ fun _ => trivial
    | some err =>
      dsimp only
      split
      · rename_i next hn
        obtain ⟨hkey, hm⟩ := scheduleCleanupRetry_eq_some hn
        exact follows_writeOrLog ⟨by decide, rfl⟩ (b := b) ⟨h'.copy.edit hkey,
          ⟨h.status_eq, h'.moves hm⟩, trivial,
          h'.again trivial (scheduleCleanupRetry_account hn), trivial⟩ fun _ => trivial
      · exact follows_writeOrLog ⟨by decide, rfl⟩ (b := b) ⟨h'.copy.edit rfl,
          .inl (h'.moves ⟨rfl, rfl⟩), trivial, h'.ended trivial (.inl rfl) (fun hm => hm) rfl nofun,
          hl'⟩ fun _ => trivial
  | some sandboxErr =>
    have hs := h'.edit { st with error := st.error ++ "; cleanup sandbox: " ++ sandboxErr.text }
      rfl rfl (fun hm => hm) rfl rfl
    refine follows_quiet rfl fun now _ => (follows_cleanupGitHubRunner _).bind fun κ₂ err he => ?_
    subst he
    cases err with
    | none =>
      exact follows_writeOrLog ⟨by decide, rfl⟩ (b := b) ⟨hs.copy.edit rfl, .inl (hs.moves ⟨rfl, rfl⟩),
        trivial, hs.ended trivial (.inl rfl) (fun hm => hm) rfl nofun, hl'⟩ fun _ => trivial
    | some err =>
      dsimp only
      split
      · rename_i next hn
        obtain ⟨hkey, hm⟩ := scheduleCleanupRetry_eq_some hn
        exact follows_writeOrLog ⟨by decide, rfl⟩ (b := b) ⟨hs.copy.edit hkey,
          ⟨h.status_eq, hs.moves hm⟩, trivial,
          hs.again trivial (scheduleCleanupRetry_account hn), trivial⟩ fun _ => trivial
      · exact follows_writeOrLog ⟨by decide, rfl⟩ (b := b) ⟨hs.copy.edit rfl,
          .inl (hs.moves ⟨rfl, rfl⟩), trivial, hs.ended trivial (.inl rfl) (fun hm => hm) rfl nofun,
          hl'⟩ fun _ => trivial

/-- The last write after an exit: a runner that has completed, or whose sandbox is gone, may be
retried. -/
theorem follows_finishExit_finish (h : StopCopy κ st b) (hl : FromLive κ b) (stopped : Bool)
    (now : Time) (hs : st.status = .failed ∨ st.status = .completed)
    (hg : st.status = .completed ∨ stopped = true → SandboxGone κ st) :
    R.part.Follows (fun _ _ => True) κ (finishExit.finish cfg st stopped now) := by
  unfold finishExit.finish
  split
  · rename_i hretry
    have hgone := h.gone (hg (hretry.imp (fun h => h) And.left))
    refine follows_writeOrLog ⟨by decide, rfl⟩ (b := b)
      ⟨h.copy.edit (rowKey_retryRunnerExitedWithoutJob cfg st now), site_exitFinal now hgone ?_,
      trivial, h.exited now hs, hl⟩ fun _ => trivial
    exact hs.imp (fun hs => h.moves ⟨hs, rfl⟩) fun hs => h.moves ⟨hs, rfl⟩
  · rename_i hretry
    have hf : st.status = .failed := hs.resolve_right fun hc => hretry (.inl hc)
    exact follows_writeOrLog ⟨by decide, rfl⟩ (b := b) ⟨h.copy, .inl (h.moves ⟨hf, rfl⟩), trivial,
      h.ended trivial hs (fun hm => hm) rfl fun _ => rfl, hl⟩ fun _ => trivial

theorem follows_cleanupRunner_finish (h : StopCopy κ st b) (hl : FromLive κ b) (stopped : Bool)
    (now : Time) (hs : st.status = .failed ∨ st.status = .completed)
    (hg : st.status = .completed ∨ stopped = true → SandboxGone κ st) :
    R.part.Follows (fun _ _ => True) κ (do
      match ← cleanupGitHubRunner st with
      | none => finishExit.finish cfg st stopped now
      | some e =>
        match scheduleCleanupRetry cfg st e now with
        | some next => writeOrLog .exitCleanupRetry next
        | none =>
          finishExit.finish cfg (failWith st .cleanup "github_runner_cleanup_failed"
            (appendError st.error ("github runner cleanup: " ++ e.text))) stopped now) := by
  refine (follows_cleanupGitHubRunner st).bind fun κ₁ err he => ?_
  subst he
  cases err with
  | none => exact follows_finishExit_finish h hl stopped now hs hg
  | some err =>
    dsimp only
    split
    · rename_i next hn
      obtain ⟨hkey, hm⟩ := scheduleCleanupRetry_eq_some hn
      exact follows_writeOrLog ⟨by decide, rfl⟩ (b := b) ⟨h.copy.edit hkey, ⟨h.status_eq, h.moves hm⟩,
        trivial, h.again trivial (scheduleCleanupRetry_account hn), trivial⟩ fun _ => trivial
    · refine follows_finishExit_finish (h.edit (failWith st .cleanup _ _) rfl rfl
        (fun hm => absurd hm (unmarked_failWith (by decide))) rfl rfl) hl stopped now
        (.inl rfl) fun hd => ?_
      exact hg (.inr (hd.resolve_left (by simp [failWith])))

theorem follows_finishExit (h : StopCopy κ st b) (hl : FromLive κ b) (runnerFailed : Bool) :
    R.part.Follows (fun _ _ => True) κ (finishExit cfg st runnerFailed) := by
  refine follows_seq (follows_stopSandboxOf st) fun κ₁ sandboxErr hg h₁ => ?_
  have h' := h.keeps h₁
  have hl' := hl.keeps h₁
  refine follows_quiet rfl fun now _ => ?_
  cases sandboxErr with
  | some err =>
    exact follows_cleanupRunner_finish (h'.edit { st with status := .failed, error := _ } rfl rfl
      (fun hm => hm) rfl rfl) hl' false now (.inl rfl) fun hd => by simp at hd
  | none =>
    have hgone := hg rfl
    cases runnerFailed with
    | true =>
      exact follows_cleanupRunner_finish (h'.edit { st with status := .failed } rfl rfl
        (fun hm => hm) rfl rfl) hl' true now (.inl rfl) fun _ => hgone
    | false =>
      exact follows_cleanupRunner_finish
        (h'.edit { st with status := .completed, completedAt := now } rfl rfl
        (fun hm => hm) rfl rfl) hl' true now (.inr rfl) fun _ => hgone

/-- The state `st` is based on the row `b` of a runner that is not being stopped yet. -/
structure ExitCopy (κ : Know) (st b : RunnerState) : Prop where
  copy : CopyOf κ st b
  started : (core b).Started
  sandboxID_eq : st.sandboxID = b.sandboxID
  account_eq : account st = account b

theorem started_of_isStarted (h : isStarted st = true) : (core st).Started := by
  simpa [isStarted, Core.Started, core] using h

theorem live_of_started (h : (core b).Started) : live b.status = true := by
  obtain h | h := h <;> exact (congrArg live h : live b.status = _)

theorem ExitCopy.fromLive {s : RunnerState} {now : Time} (h : ExitCopy κ st b)
    (hkey : rowKey s = rowKey st) (hf : s.failedAt = st.failedAt)
    (hr : Written (markRunnerCleanupStarted s now) r) :
    FromLive (κ.wrote .exitStopping (some r)) r := by
  have ha := hr.account_eq nofun
  have hb := h.account_eq
  simp only [account, Prod.mk.injEq] at ha hb
  refine ⟨b, List.mem_cons_of_mem _ h.copy.known, ?_, live_of_started h.started, ?_⟩
  · exact (h.copy.edit hkey).key.trans hr.key.symm
  · exact ha.2.2.2.trans (hf.trans hb.2.2.2)

theorem follows_cleanupAfterError (h : ExitCopy κ st b) (err : Err) :
    R.part.Follows (fun _ _ => True) κ (cleanupAfterError cfg st err) := by
  refine follows_quiet rfl fun now _ => ?_
  dsimp only
  have hkey := rowKey_setTerminationSource st .processExit
  have hst := account_setTerminationSource st .processExit
  have hb := h.account_eq
  simp only [account, Prod.mk.injEq] at hst hb
  have hreason : "process_error" ≠ "jit_cleanup_pending" := by decide
  refine follows_write ⟨by decide, rfl⟩ (b := b) ⟨h.copy.edit hkey, ⟨h.started, rfl, ?_⟩, trivial,
    accounts_stopping trivial rfl (fun hm => absurd hm hreason)
    (.inl (hst.2.2.1.trans hb.2.2.1)) (hst.2.2.2.trans hb.2.2.2), trivial⟩ ?_ ?_
  · exact (sandboxID_setTerminationSource st .processExit).trans h.sandboxID_eq
  · exact Outline.follows_pure trivial
  · exact fun r hr => follows_finishError (hr.stopCopy rfl) (h.fromLive
      (s := failWith (setTerminationSource st .processExit) .runnerExit _ _) hkey hst.2.2.2 hr)

theorem exited_facts (st : RunnerState) (result : ExitResult) (failed : Bool) :
    let st' : RunnerState :=
      { setTerminationSource st .processExit with runnerExitCode := some result.exitCode }
    let st'' := if failed = true then
      failWith st' .runnerExit (toString result.exitCode) (runnerExitMessage result) else st'
    rowKey st'' = rowKey st ∧ st''.sandboxID = st.sandboxID ∧ (Marked st'' → Marked st) ∧
      st''.retryCount = st.retryCount ∧ st''.failedAt = st.failedAt := by
  have hkey := rowKey_setTerminationSource st .processExit
  have hsandbox := sandboxID_setTerminationSource st .processExit
  have ha := account_setTerminationSource st .processExit
  simp only [account, Prod.mk.injEq] at ha
  obtain ⟨-, hr, hc, hf⟩ := ha
  cases failed with
  | false => exact ⟨hkey, hsandbox, fun hm => hr.symm.trans hm, hc, hf⟩
  | true => exact ⟨hkey, hsandbox, fun hm => absurd hm (exitCode_unmarked _), hc, hf⟩

theorem follows_cleanupAfterExit (h : ExitCopy κ st b) (result : ExitResult) :
    R.part.Follows (fun _ _ => True) κ (cleanupAfterExit cfg st result) := by
  refine follows_quiet rfl fun now _ => ?_
  dsimp only
  obtain ⟨hkey, hsandbox, hm, hc, hf⟩ :=
    exited_facts st result (decide (result.exitCode ≠ 0))
  have hb := h.account_eq
  simp only [account, Prod.mk.injEq] at hb
  refine follows_write ⟨by decide, rfl⟩ (b := b) ⟨h.copy.edit hkey, ⟨h.started, rfl,
    hsandbox.trans h.sandboxID_eq⟩, trivial, accounts_stopping trivial rfl
    (fun h' => .inr (hb.2.1.symm.trans (hm h'))) (.inl (hc.trans hb.2.2.1)) (hf.trans hb.2.2.2),
    trivial⟩ ?_ ?_
  · exact Outline.follows_pure trivial
  · exact fun r hr => follows_finishExit (hr.stopCopy rfl) (h.fromLive hkey hf hr) _

theorem follows_githubRunnerBusy (st : RunnerState) :
    R.part.Follows (fun _ _ => True) κ (githubRunnerBusy st) := by
  unfold githubRunnerBusy
  split
  · exact Outline.follows_pure trivial
  · exact follows_quiet_last .runnerBusy rfl fun _ => trivial

theorem follows_cleanupExited (h : ExitCopy κ st b) (id : String) (result : ExitResult)
    (err : Option Err) :
    R.part.Follows (fun _ _ => True) κ (cleanupExited cfg id st result err) := by
  have hlast : ∀ κ', R.part.Follows (fun _ _ => True) κ' (do
      let _ ← ask (.unlock id)
      retainWorkflowJobResultAfterRunnerExit id) :=
    fun _ => follows_unlock (follows_retainWorkflowJobResultAfterRunnerExit id)
  cases err with
  | none => exact follows_seq (follows_cleanupAfterExit h result) fun κ' _ _ _ => hlast κ'
  | some e => exact follows_seq (follows_cleanupAfterError h e) fun κ' _ _ _ => hlast κ'

theorem sandboxID_ne_of_matches {attempt : RunnerAttemptIdentity}
    (h : attempt.matchesState st = true) : st.sandboxID ≠ "" := by
  intro hn
  simp only [RunnerAttemptIdentity.matchesState, Bool.and_eq_true, decide_eq_true_eq, ne_eq] at h
  obtain ⟨⟨⟨h1, -⟩, h2⟩, -⟩ := h
  rw [h2, hn] at h1
  exact h1 coreOk_empty.sandbox

theorem exitCopy_of_read {κ₀ : Know} {key : String} (hr : Learned κ₀ key r)
    (hs : isStarted r = true) (result : ExitResult) :
    ExitCopy (κ₀.read r) (setEffectiveRunnerVersion r result) r := by
  obtain ⟨environment, he⟩ := setEffectiveRunnerVersion_eq r result
  exact ⟨hr.copy_edit (rowKey_setEffectiveRunnerVersion r result), started_of_isStarted hs,
    by rw [he], account_setEffectiveRunnerVersion r result⟩

theorem follows_exitedUnlessBusy (id : String) (st : RunnerState) (attempt : RunnerAttemptIdentity)
    (result : ExitResult) (err : Option Err) : R.part.Follows (fun _ _ => True) κ
      (exitedUnlessBusy cfg id st attempt result err) := by
  have hunlock : ∀ κ', R.part.Follows (fun _ _ => True) κ' (ask (.unlock id)) :=
    fun _ => follows_unlock_last trivial
  refine follows_unlock (follows_seq (follows_githubRunnerBusy st) fun κ₁ busy _ _ => ?_)
  refine follows_lock (follows_read (hunlock _) fun r hr => ?_)
  dsimp only
  split
  · exact hunlock _
  · rename_i hmatch
    split
    · exact follows_seq (follows_recordLateRunnerExitEvidence hr.copy attempt result err)
        fun κ' _ _ _ => hunlock κ'
    · rename_i hstarted
      simp only [Bool.not_eq_true', Bool.not_eq_false] at hmatch hstarted
      have hcopy := exitCopy_of_read hr hstarted result
      obtain ⟨environment, he⟩ := setEffectiveRunnerVersion_eq r result
      split
      · have ha := hcopy.account_eq
        simp only [account, Prod.mk.injEq] at ha
        refine follows_write ⟨by decide, rfl⟩ (b := r) ⟨hcopy.copy.edit rfl, ⟨hcopy.started,
          sandboxID_ne_of_matches hmatch, ?_, rfl, hcopy.sandboxID_eq⟩, trivial,
          accounts_started trivial (.inr rfl) (live_of_started hcopy.started) (fun h => by cases h)
          (fun hm => ha.2.1.symm.trans hm) ha.2.2.1 ha.2.2.2, trivial⟩ ?_ ?_
        · constructor <;> simp only [core, keepBusyRunner, he]
        · refine follows_read (hunlock _) fun again ha => ?_
          dsimp only
          split
          · exact hunlock _
          · rename_i hagain
            simp only [Bool.or_eq_true, Bool.not_eq_true', not_or, Bool.not_eq_false] at hagain
            exact follows_cleanupExited (b := again)
              ⟨ha.copy, started_of_isStarted hagain.2, rfl, rfl⟩ id result err
        · exact fun _ _ => hunlock _
      · exact follows_cleanupExited hcopy id result err

theorem follows_runnerExitedForAttempt (id : String) (attempt : RunnerAttemptIdentity)
    (result : ExitResult) (err : Option Err) : R.part.Follows (fun _ _ => True) κ
      (runnerExitedForAttempt cfg id attempt result err) := by
  have hunlock : ∀ κ', R.part.Follows (fun _ _ => True) κ' (ask (.unlock id)) :=
    fun _ => follows_unlock_last trivial
  refine follows_lock (follows_read (hunlock _) fun r hr => ?_)
  dsimp only
  split
  · exact hunlock _
  · split
    · exact follows_seq (follows_recordLateRunnerExitEvidence hr.copy attempt result err)
        fun κ' _ _ _ => hunlock κ'
    · rename_i hstarted
      simp only [Bool.not_eq_true', Bool.not_eq_false] at hstarted
      split
      · exact follows_cleanupExited (exitCopy_of_read hr hstarted result) id result err
      · exact follows_exitedUnlessBusy id _ attempt result err

end CiRunner.Lifecycle
