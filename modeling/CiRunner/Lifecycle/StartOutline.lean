import CiRunner.Lifecycle.Rules

/-! The programs of a start follow the outline. -/

namespace CiRunner.Lifecycle

open Threads CiRunner.State Text

variable {cfg : Settings} {R : Reading cfg} {κ : Know} {id workerID : String} {n : Nat}
  {st b req : RunnerState} {stage : Stage}

/-- A thread on attempt `n` of the request `id`. -/
structure OnAttempt (κ : Know) (id : String) (n : Nat) : Prop where
  key : sanitizeID id = id
  attempt : κ.attempt = some (id, n)

theorem OnAttempt.keeps {κ' : Know} (h : OnAttempt κ id n) (hk : Keeps κ κ') : OnAttempt κ' id n :=
  ⟨h.key, hk.attempt.trans h.attempt⟩

theorem OnAttempt.of_learned {κ' : Know} {r : RunnerState} (h : OnAttempt κ id n)
    (hr : Learned κ' (sanitizeID id) r) : κ.attempt = some (r.id, n) := by
  rw [hr.id_eq, h.key]
  exact h.attempt

theorem OnAttempt.sanitized (h : OnAttempt κ id n) : κ.attempt = some (sanitizeID id, n) := by
  rw [h.key]
  exact h.attempt

/-- A state that may be failed: it goes back to a row that is known, with the end of the earlier
runner as it was. -/
structure Failable (κ : Know) (id : String) (st b : RunnerState) : Prop where
  copy : CopyOf κ st b
  id_eq : b.id = id
  terminationSource_eq : st.terminationSource = b.terminationSource
  runnerExitCode_eq : st.runnerExitCode = b.runnerExitCode
  retryCount_eq : st.retryCount = b.retryCount
  status_eq : b.status = .queued

theorem Failable.keeps {κ' : Know} (h : Failable κ id st b) (hk : Keeps κ κ') :
    Failable κ' id st b :=
  ⟨h.copy.keeps hk, h.id_eq, h.terminationSource_eq, h.runnerExitCode_eq, h.retryCount_eq,
    h.status_eq⟩

theorem Failable.resets (h : Failable κ id st b) (cfg : Settings) (stage : Stage) (err : Err)
    (now : Time) : Resets (core b) (core (applyFailure cfg st stage err true now)) := by
  obtain ⟨hn, hf | hq⟩ := resets_applyFailure cfg st stage err true now
  · exact ⟨hn, .inl hf⟩
  · refine ⟨hn, .inr (hq.trans ?_)⟩
    simp only [core, h.terminationSource_eq, h.runnerExitCode_eq]

theorem accounts_applyFailure (cfg : Settings) (stage : Stage) (err : Err) (now : Time)
    (hb : b.status ≠ .completed ∧ b.status ≠ .stopping) (hc : st.retryCount = b.retryCount) :
    Accounts cfg.retryMaxAttempts b (applyFailure cfg st stage err true now) (.failStart n) := by
  obtain ⟨hr, -, ⟨hs, hcount⟩ | ⟨hs, hf, hcount, hd⟩⟩ := applyFailure_cases cfg st stage err now
  · exact accounts_ended hb (.inl hs) (fun h => absurd h hr) (hcount.trans hc)
      (fun h => by rw [hs] at h; cases h)
  · rw [hc] at hcount hd
    exact accounts_queued hb hs (hd.imp_left And.left) hr (fun _ => hcount) (.inr ⟨hf, rfl⟩)
      (.inr rfl)

/-- A start may fail while its attempt is open, or before it has made one. -/
def MayFail (κ : Know) (stage : Stage) : Prop :=
  κ.undecided = true ∨ stage = .profileLookup ∨ stage = .profileValidation

theorem MayFail.backed (h : MayFail κ stage) (cfg : Settings) (n : Nat) (b st : RunnerState)
    (err : Err) (now : Time) : Backed κ b (applyFailure cfg st stage err true now) (.failStart n) := by
  have hstage := (applyFailure_cases cfg st stage err now).2.1
  refine h.imp_right fun h => ?_
  rw [failsEarly, hstage]
  obtain rfl | rfl := h <;> rfl

theorem attempt_wrote {w : Writer} (hw : w ≠ .creating) (reply : Option RunnerState) :
    (κ.wrote w reply).attempt = κ.attempt := by
  cases reply with
  | none => rfl
  | some r => exact nextAttempt_eq hw

theorem follows_failStartForAttempt (ha : OnAttempt κ id n) (hst : Failable κ id st b)
    (hd : MayFail κ stage) (err : Err) (attemptAt : Option Time) :
    R.outline.Follows (fun κ' _ => κ'.attempt = κ.attempt) κ
      (failStartForAttempt cfg n id st stage err attemptAt) := by
  have hlast : ∀ {κ' : Know}, κ'.attempt = κ.attempt → ∀ reply,
      R.outline.Follows (fun κ'' _ => (κ''.unlocked id).attempt = κ.attempt)
        (κ'.wrote (.failStart n) reply) (pure ()) :=
    fun h reply => Outline.follows_pure ((attempt_wrote (w := .failStart n) nofun reply).trans h)
  refine follows_locked (Outline.follows_ask_bind trivial fun reply ht => ?_)
  cases reply with
  | none =>
    dsimp only
    split
    · exact Outline.follows_pure rfl
    · refine Outline.follows_ask_bind trivial fun now _ => follows_decide (b := b) ⟨?_, ?_, ?_, ?_,
        hd.backed cfg n b st err now⟩ (hlast rfl)
      · exact (hst.keeps (keeps_learn (c := .lock id) trivial ())).copy.edit
          (rowKey_applyFailure ..)
      · exact hst.resets cfg stage err now
      · show κ.attempt = some (b.id, n)
        rw [hst.id_eq]
        exact ha.attempt
      · exact accounts_applyFailure cfg stage err now (by simp [hst.status_eq]) hst.retryCount_eq
  | some r =>
    have hr : Learned (κ.locked id) (sanitizeID id) r := ht r rfl
    dsimp only
    split
    · exact Outline.follows_pure rfl
    · split
      · exact follows_of_part (follows_release ha.sanitized rfl)
      · rename_i hstatus
        refine Outline.follows_ask_bind trivial fun now _ => follows_decide (b := r) ⟨?_, ?_, ?_, ?_,
          hd.backed cfg n r r err now⟩ (hlast rfl)
        · exact hr.copy_edit (rowKey_applyFailure ..)
        · exact resets_applyFailure ..
        · exact ha.of_learned hr
        · exact accounts_applyFailure cfg stage err now (not_or.mp hstatus) rfl

theorem follows_deferQueuedRequest (ha : OnAttempt κ id n) (next : Time)
    (stage : Capacity.CapacityStage) :
    R.part.Follows (fun _ _ => True) κ (deferQueuedRequest n id workerID next stage) := by
  refine follows_withLock (follows_read ?_ fun r hr => ?_)
  · exact follows_release ha.sanitized trivial
  · dsimp only
    split
    · exact follows_release ha.sanitized trivial
    · rename_i hq
      refine follows_write ⟨nofun, rfl⟩ (b := r) ⟨?_, ⟨?_, core_deferQueued ..⟩,
        ha.of_learned hr, accounts_same rfl trivial rfl, trivial⟩ ?_ ?_
      · exact hr.copy_edit rfl
      · simp only [not_or, not_not] at hq
        exact hq.1
      · exact follows_release ha.sanitized trivial
      · exact fun _ _ => Outline.follows_pure trivial

theorem follows_deferCreatingRequest (ha : OnAttempt κ id n) (hu : κ.undecided = true)
    (next : Time) :
    R.outline.Follows (fun _ _ => True) κ (deferCreatingRequest n id workerID next) := by
  refine follows_locked (Outline.follows_ask_bind trivial fun reply ht => ?_)
  cases reply with
  | none => exact follows_of_part (follows_release ha.sanitized trivial)
  | some r =>
    have hr : Learned (κ.locked id) (sanitizeID id) r := ht r rfl
    dsimp only
    split
    · exact Outline.follows_pure trivial
    · rename_i hq
      simp only [not_or, not_not] at hq
      refine follows_decide (b := r) ⟨hr.copy_edit rfl, ⟨hq.1, hq.2.2, core_deferCreating ..⟩,
        ha.of_learned hr, ?_, hu⟩ fun _ => Outline.follows_pure trivial
      exact {
        counts := fun _ => .inl rfl
        queued := fun _ => .inl rfl
        marked := .inr
        unmarked := fun _ _ => .inr hq.1
        failedAt := fun _ => .inl rfl
        live := fun _ => .inl (by rw [hq.1]; rfl)
        finds := trivial }

/-! ### The check of the job -/

theorem accounts_completeSkipped {m : Nat} (b : RunnerState) (job : WorkflowJob) (now : Time) :
    Accounts m b (completeSkipped b job now) (.skipped n) := by
  have h : account (retainWorkflowJobResult (recordAssignedJob b job) job now).1 = account b := by
    simp
  simp only [account, Prod.mk.injEq] at h
  exact accounts_ended trivial (.inr rfl) (fun h => absurd h (unmarked_of_empty rfl)) h.2.2.1
    fun _ => h.2.2.2

theorem follows_completeWithoutSandbox (ha : OnAttempt κ id n) (hn : id ∈ κ.unprovisioned)
    (job : WorkflowJob) :
    R.part.Follows (fun _ _ => True) κ (completeWithoutSandbox n id job) := by
  refine follows_read (Outline.follows_pure trivial) fun r hr => ?_
  dsimp only
  split
  · exact Outline.follows_pure trivial
  · refine follows_quiet rfl fun now _ => follows_write ⟨nofun, rfl⟩ (b := r)
      ⟨hr.copy_edit (rowKey_completeSkipped ..), ⟨?_, moves_completeSkipped ..⟩,
        ha.of_learned hr, accounts_completeSkipped .., trivial⟩ ?_ ?_
    · apply hr.unprovisioned
      rw [ha.key]
      exact hn
    · exact Outline.follows_pure trivial
    · exact fun _ _ => Outline.follows_pure trivial

theorem mem_unprovisioned {r : RunnerState} (hn : r.sandboxID = "") (hl : r.id ∈ κ.locks) :
    r.id ∈ (κ.read r).unprovisioned := by
  simp [Know.read, hn, hl]

theorem jobCheckOutcome_unmarked (stale : Bool) (lookup : Except Err WorkflowJob) :
    (jobCheckOutcome stale lookup).2.2.1 ≠ "jit_cleanup_pending" := by
  have hwait : workflowJobWaitCode ≠ "jit_cleanup_pending" := by decide
  unfold jobCheckOutcome
  dsimp only
  repeat' split
  all_goals first
    | exact hwait
    | decide

theorem accounts_deferForJob (cfg : Settings) (hc : b.status = .creating)
    (known rateLimited : Bool) {code : String} (message : String) (now : Time)
    (hcode : code ≠ "jit_cleanup_pending") : Accounts cfg.retryMaxAttempts b
      (deferForJob cfg b known rateLimited code message now) (.jobCheckDeferred n) := by
  have hlive : live b.status = true := by rw [hc]; rfl
  unfold deferForJob
  dsimp only
  split
  · exact accounts_ended trivial (.inl rfl) (fun h => absurd h hcode) rfl nofun
  · split
    · exact accounts_queued trivial rfl (.inl rfl) (unmarked_of_empty rfl) (fun _ => .inl rfl) (.inl rfl)
        (.inl hlive)
    · refine accounts_queued trivial rfl (.inl rfl) (unmarked_of_empty rfl) (fun _ => ?_) (.inl rfl) (.inl hlive)
      simp only [Counts]
      split
      · rename_i hroom
        exact .inr ⟨hroom, rfl⟩
      · exact .inl rfl

theorem follows_postpone {r : RunnerState} (ha : OnAttempt κ id n) (hu : κ.undecided = true)
    (hr : Learned κ (sanitizeID id) r) (hc : r.status = .creating) (hs : r.sandboxID = "")
    (hp : r.processPID = 0) {outcome : Bool × Bool × String × String}
    (ho : outcome.2.2.1 ≠ "jit_cleanup_pending") :
    R.outline.Follows (fun κ' a => a = .ok false ∨ Keeps (κ.read r) κ') (κ.read r)
      (ensureWorkflowJobStillQueued.postpone cfg n r outcome) := by
  refine Outline.follows_ask_bind trivial fun now _ => follows_decide (b := r)
    ⟨hr.copy_edit (rowKey_deferForJob ..), ⟨hc, hs, hp, core_deferForJob ..⟩, ha.of_learned hr,
      accounts_deferForJob cfg hc _ _ _ now ho, hu⟩ fun reply => ?_
  cases reply with
  | none => exact Outline.follows_pure (.inr (keeps_refused _))
  | some r => exact Outline.follows_pure (.inl rfl)

theorem follows_ensureWorkflowJobStillQueued (ha : OnAttempt κ req.id n)
    (hu : κ.undecided = true) :
    R.outline.Follows (fun κ' a => a = .ok false ∨ Keeps κ κ') κ
      (ensureWorkflowJobStillQueued cfg n req workerID) := by
  unfold ensureWorkflowJobStillQueued
  split
  · exact Outline.follows_pure (.inr (.refl κ))
  · refine Outline.follows_ask_bind trivial fun reply _ => ?_
    cases reply with
    | none => exact Outline.follows_pure (.inr (.refl κ))
    | some before =>
    dsimp only
    have hbefore : Keeps κ (κ.read before) :=
      keeps_learn (c := .readState req.id) trivial (some before)
    have hlock : Keeps κ ((κ.read before).locked req.id) :=
      hbefore.trans (keeps_learn (c := .lock req.id) trivial ())
    have hunlock : ∀ κ', Keeps κ' (κ'.unlocked req.id) := fun κ' =>
      keeps_learn (c := .unlock req.id) trivial ()
    refine Outline.follows_ask_bind trivial fun answer _ => follows_locked ?_
    refine Outline.follows_ask_bind trivial fun reply ht => ?_
    cases reply with
    | none => exact Outline.follows_pure (.inr (hlock.trans (hunlock _)))
    | some r =>
      have hr : Learned ((κ.read before).locked req.id) (sanitizeID req.id) r := ht r rfl
      have hread : Keeps κ (((κ.read before).locked req.id).read r) :=
        hlock.trans (keeps_learn (c := .readState req.id) trivial (some r))
      dsimp only
      split
      · exact Outline.follows_pure (.inl rfl)
      · rename_i hstill
        simp only [not_or, not_not] at hstill
        obtain ⟨hc, -, hs, hp, -, -⟩ := hstill
        have ha' : OnAttempt ((κ.read before).locked req.id) req.id n := ⟨ha.key, ha.attempt⟩
        have hpostpone : ∀ stale lookup, R.outline.Follows
            (fun κ' a => a = .ok false ∨ Keeps κ (κ'.unlocked req.id))
            (((κ.read before).locked req.id).read r)
            (ensureWorkflowJobStillQueued.postpone cfg n r (jobCheckOutcome stale lookup)) :=
          fun stale lookup => (follows_postpone ha' hu hr hc hs hp
            (jobCheckOutcome_unmarked stale lookup)).mono
              fun _ _ h => h.imp_right fun h => hread.trans (h.trans (hunlock _))
        split
        · split
          · split
            · refine follows_then (Q := fun _ _ => True) (follows_write_last ⟨nofun, rfl⟩ (b := r)
                ⟨hr.copy_edit rfl, rfl, ha'.of_learned hr, ?_, trivial⟩ fun _ => trivial)
                fun κ' reply _ hk => ?_
              · exact accounts_started trivial (.inl hc) (by rw [hc]; rfl)
                  (fun _ => .inr hc) (fun h => absurd h (unmarked_of_empty rfl)) rfl rfl
              · cases reply <;>
                  exact Outline.follows_pure (.inr (hread.trans (hk.trans (hunlock _))))
            · exact Outline.follows_pure (.inr (hread.trans (hunlock _)))
          · split
            · have ha'' : OnAttempt (((κ.read before).locked req.id).read r) req.id n :=
                ⟨ha.key, ha.attempt⟩
              refine (follows_of_part (follows_keeps (follows_completeWithoutSandbox ha'' ?_ _))).mono
                fun _ _ h => .inr (hread.trans (h.2.trans (hunlock _)))
              have hid : r.id = req.id := hr.id_eq.trans ha.key
              rw [← hid]
              exact mem_unprovisioned hs (hid ▸ List.mem_cons_self ..)
            · exact hpostpone false _
        · exact hpostpone _ _

/-! ### Provisioning -/

theorem follows_persistSandboxServiceSnapshot (ha : OnAttempt κ id n) {config : ServiceSnapshot}
    (hs : unconfigured config = true → κ.served = true) :
    R.part.Follows (fun κ' a => a = .done → κ'.served = true) κ
      (persistSandboxServiceSnapshot n id config) := by
  unfold persistSandboxServiceSnapshot
  split
  · rename_i hu
    exact Outline.follows_pure fun _ => hs (decide_eq_true hu)
  · refine follows_quiet rfl fun check _ => ?_
    cases check with
    | deferred => exact Outline.follows_pure nofun
    | failed err => exact Outline.follows_pure nofun
    | allowed =>
      refine follows_read (Outline.follows_pure nofun) fun r hr => ?_
      refine follows_write ⟨nofun, rfl⟩ (b := r) ⟨?_, ⟨_, rfl⟩, ha.of_learned hr,
        accounts_same rfl trivial rfl, trivial⟩ ?_ ?_
      · exact hr.copy_edit rfl
      · exact Outline.follows_pure nofun
      · exact fun _ _ => Outline.follows_pure fun _ => rfl

theorem follows_stopSandbox (sandboxID : String) :
    R.part.Follows (fun κ' a => a = none → sandboxID ∈ κ'.stopped) κ (stopSandbox sandboxID) := by
  refine Outline.follows_ask_bind ⟨trivial, trivial⟩ fun reply _ => ?_
  cases reply with
  | none => exact Outline.follows_pure fun _ => List.mem_cons_self ..
  | some err =>
    rcases hg : isSandboxGone err with _ | _
    · simp only [hg, Bool.false_eq_true, if_false]
      exact Outline.follows_pure nofun
    · simp only [hg, if_true]
      refine Outline.follows_pure fun _ => ?_
      show sandboxID ∈ (learn κ (.stopSandbox sandboxID) (some err)).stopped
      simp [learn, hg, Know.stoppedSandbox]

theorem follows_cleanupStartedSandbox (result : StartResult) :
    R.part.Follows (fun _ _ => True) κ (cleanupStartedSandbox result) := by
  unfold cleanupStartedSandbox
  split
  · exact Outline.follows_pure trivial
  · exact follows_seq (follows_stopSandbox _) fun _ _ _ _ => Outline.follows_pure trivial

theorem follows_cleanupGitHubRunner (st : RunnerState) :
    R.part.Follows (fun κ' _ => κ' = κ) κ (cleanupGitHubRunner st) := by
  unfold cleanupGitHubRunner
  split
  · exact Outline.follows_pure rfl
  · exact follows_quiet_last (.remote .removeRunner) rfl fun _ => rfl

theorem follows_launch (ha : OnAttempt κ id n) (hs : κ.served = true) (attemptAt : Option Time)
    (region templateID : String) :
    R.part.Follows (fun _ _ => True) κ (launch n id attemptAt region templateID) := by
  refine follows_quiet rfl fun url _ => ?_
  cases url with
  | some err => exact Outline.follows_pure trivial
  | none =>
  refine follows_quiet rfl fun started _ => ?_
  cases started with
  | error err => exact Outline.follows_pure trivial
  | ok result =>
  dsimp only
  refine follows_seq (Q := fun _ _ => True) (follows_withLock (follows_read ?_ fun r hr => ?_))
    fun κ' adopted _ _ => ?_
  · exact Outline.follows_pure trivial
  · dsimp only
    split
    · exact Outline.follows_pure trivial
    · rename_i hc
      simp only [not_or, not_not] at hc
      refine follows_write ⟨nofun, rfl⟩ (b := r) ⟨hr.copy_edit rfl,
        ⟨hc.1, rfl, rfl, result.trimmed⟩, ⟨ha.of_learned hr, hs, ?_⟩,
        accounts_started trivial (.inr rfl) (by rw [hc.1]; rfl) nofun (fun h => h) rfl rfl,
        trivial⟩ ?_ ?_
      · have hid : r.id = id := hr.id_eq.trans ha.key
        rw [hid]
        exact List.mem_cons_self ..
      · exact Outline.follows_pure trivial
      · exact fun _ _ => follows_quiet rfl fun _ _ => Outline.follows_pure trivial
  · split
    · exact Outline.follows_pure trivial
    · exact follows_seq (follows_cleanupStartedSandbox result) fun _ _ _ _ =>
        Outline.follows_pure trivial

theorem accounts_retainJITCleanup {w : Writer} (cfg : Settings) (b : RunnerState) (now : Time)
    (hw : w.marks = true) (hfinds : w.Finds b) :
    Accounts cfg.retryMaxAttempts b (retainJITCleanup cfg b now) w := by
  have h := account_setTerminationSource (markRunnerCleanupStarted b now) .failureCleanup
  simp only [account, Prod.mk.injEq] at h
  exact accounts_stopping hfinds h.1 (fun _ => .inl hw) (.inl h.2.2.1) h.2.2.2

theorem follows_retainWindowsJITCleanup (ha : OnAttempt κ id n) :
    R.part.Follows (fun _ _ => True) κ (retainWindowsJITCleanup cfg n id) := by
  refine follows_withLock (follows_read (Outline.follows_pure trivial) fun r hr => ?_)
  dsimp only
  split
  · exact Outline.follows_pure trivial
  · refine follows_quiet rfl fun now _ => follows_writeOrLog ⟨nofun, rfl⟩ (b := r)
      ⟨hr.copy_edit (rowKey_retainJITCleanup ..), moves_retainJITCleanup .., ha.of_learned hr,
        accounts_retainJITCleanup cfg r now rfl trivial, trivial⟩ fun _ => trivial

theorem follows_cleanupWindowsJIT (attemptAt : Time) (runnerKnown : Bool) :
    R.part.Follows (fun _ _ => True) κ (cleanupWindowsJIT id attemptAt runnerKnown) := by
  unfold cleanupWindowsJIT
  split
  · exact follows_quiet_last (.remote .removeRunner) rfl fun _ => trivial
  · refine follows_withLock (follows_read (Outline.follows_pure trivial) fun r _ => ?_)
    dsimp only
    split
    · exact Outline.follows_pure trivial
    · exact follows_quiet_last (.remote .removeRunner) rfl fun _ => trivial

theorem follows_cleanupJIT (ha : OnAttempt κ id n) (attemptAt : Time) (runnerKnown : Bool) :
    R.part.Follows (fun _ _ => True) κ (cleanupJIT cfg n id attemptAt runnerKnown) := by
  refine follows_seq (follows_cleanupWindowsJIT attemptAt runnerKnown) fun κ' err _ hk => ?_
  cases err with
  | none => exact Outline.follows_pure trivial
  | some err =>
    exact follows_seq (follows_retainWindowsJITCleanup (ha.keeps hk)) fun _ _ _ _ =>
      Outline.follows_pure trivial

theorem follows_cleanupJITUnless (ha : OnAttempt κ id n) (adopted : Bool) (attemptAt : Time)
    (runnerKnown : Bool) :
    R.part.Follows (fun _ _ => True) κ (cleanupJITUnless cfg adopted n id attemptAt runnerKnown) := by
  unfold cleanupJITUnless
  split
  · exact Outline.follows_pure trivial
  · exact follows_seq (follows_cleanupJIT ha attemptAt runnerKnown) fun _ _ _ _ =>
      Outline.follows_pure trivial

theorem follows_prepareWindowsJIT (attemptAt : Time) :
    R.part.Follows (fun _ _ => True) κ (prepareWindowsJIT id attemptAt) := by
  refine follows_withLock (follows_read (Outline.follows_pure trivial) fun r _ => ?_)
  dsimp only
  split
  · exact Outline.follows_pure trivial
  · refine follows_seq (follows_cleanupGitHubRunner r) fun κ' err _ _ => ?_
    cases err with
    | some err => exact Outline.follows_pure trivial
    | none => exact follows_quiet rfl fun _ _ => Outline.follows_pure trivial

/-- A failed attempt on Windows: the registration is cleaned up before and, if that failed, after
the failure is written. -/
theorem follows_failWindows (ha : OnAttempt κ id n) (hst : Failable κ id st b)
    (hu : κ.undecided = true) (jit : JITResult) (stage : Stage) (err : Err) :
    R.outline.Follows (fun _ _ => True) κ (failWindows cfg jit n id st stage err) := by
  refine follows_then (Q := fun _ _ => True) ?_ fun κ' adopted _ hk => ?_
  · unfold settleJIT
    split
    · exact follows_cleanupJIT ha _ jit.runnerKnown
    · exact Outline.follows_pure trivial
  · refine (follows_failStartForAttempt (ha.keeps hk) (hst.keeps hk)
      (.inl (hk.undecided.trans hu)) err _).bind fun κ'' _ ha' => ?_
    refine follows_of_part (follows_cleanupJITUnless ⟨ha.key, ?_⟩ adopted _ jit.runnerKnown)
    exact ha'.trans (ha.keeps hk).attempt

theorem follows_launchWindows (ha : OnAttempt κ id n) (hs : κ.served = true)
    (hu : κ.undecided = true) (hst : Failable κ id st b) (region templateID : String) :
    R.outline.Follows (fun _ _ => True) κ (launchWindows cfg n id st region templateID) := by
  refine follows_then (follows_prepareWindowsJIT st.lastAttemptAt) fun κ' prepared _ hk => ?_
  cases prepared with
  | superseded => exact Outline.follows_pure trivial
  | registered jit =>
  rcases hj : jit.err with _ | err
  · simp only [hj]
    refine follows_then (follows_launch (ha.keeps hk) (hk.served hs) _ region templateID)
      fun κ'' launched _ hk' => ?_
    have ha' := ha.keeps (hk.trans hk')
    cases launched with
    | adopted => exact Outline.follows_pure trivial
    | discarded => exact follows_of_part (follows_cleanupJITUnless ha' _ _ _)
    | failed stage err =>
      exact follows_failWindows ha' (hst.keeps (hk.trans hk'))
        ((hk.trans hk').undecided.trans hu) jit stage err
  · simp only [hj]
    exact follows_failWindows (ha.keeps hk) (hst.keeps hk) (hk.undecided.trans hu) jit
      .githubRegistration err

theorem follows_launchLinux (ha : OnAttempt κ id n) (hs : κ.served = true)
    (hu : κ.undecided = true) (hst : Failable κ id st b) (region templateID : String) :
    R.outline.Follows (fun _ _ => True) κ (launchLinux cfg n id st region templateID) := by
  refine Outline.follows_ask_bind trivial fun token _ => ?_
  cases token with
  | some err => exact (follows_failStartForAttempt ha hst (.inl hu) _ _).mono fun _ _ _ => trivial
  | none =>
    refine follows_then (follows_launch ha hs none region templateID) fun κ' launched _ hk => ?_
    cases launched with
    | adopted => exact Outline.follows_pure trivial
    | discarded => exact Outline.follows_pure trivial
    | failed stage err =>
      exact (follows_failStartForAttempt (ha.keeps hk) (hst.keeps hk)
        (.inl (hk.undecided.trans hu)) _ _).mono fun _ _ _ => trivial

theorem follows_validateRunnerGroup (req : RunnerState) :
    R.part.Follows (fun _ _ => True) κ (validateRunnerGroup req) := by
  unfold validateRunnerGroup
  split
  · exact Outline.follows_pure trivial
  · exact follows_quiet_last (.remote .validateRunnerGroup) rfl fun _ => trivial

theorem follows_runAttempt (ha : OnAttempt κ req.id n) (hst : Failable κ req.id st b)
    (hu : κ.undecided = true) :
    R.outline.Follows (fun _ _ => True) κ (runAttempt cfg n req st workerID) := by
  have hfail : ∀ {κ'} (stage : Stage) (err : Err), Keeps κ κ' →
      R.outline.Follows (fun _ _ => True) κ' (failStartForAttempt cfg n req.id st stage err
        (if isWindows req.labels = true then some st.lastAttemptAt else none)) :=
    fun stage err hk => (follows_failStartForAttempt (ha.keeps hk) (hst.keeps hk)
      (.inl (hk.undecided.trans hu)) err _).mono fun _ _ _ => trivial
  unfold runAttempt
  dsimp only
  refine (follows_ensureWorkflowJobStillQueued ha hu).bind fun κ₁ still h₁ => ?_
  match still with
  | .error err => exact hfail _ err (h₁.resolve_left nofun)
  | .ok false => exact Outline.follows_pure trivial
  | .ok true =>
  replace h₁ := h₁.resolve_left nofun
  refine follows_then (follows_validateRunnerGroup req) fun κ₂ group _ h => ?_
  have h₂ := h₁.trans h
  cases group with
  | some err => exact hfail _ err h₂
  | none =>
  have hkey : κ₂.attempt = some (sanitizeID req.id, n) := by
    rw [(ha.keeps h₂).attempt, ha.key]
  refine Outline.follows_ask_bind ⟨n, hkey⟩ fun answer _ => ?_
  cases answer with
  | error err => exact hfail _ err h₂
  | ok config =>
  have h₃ := h₂.trans (keeps_learn (κ := κ₂) (c := .sandboxConfig req.id) trivial (.ok config))
  have hs : unconfigured config = true →
      (learn κ₂ (.sandboxConfig req.id) (.ok config)).served = true := by
    intro hc
    simp [learn, hc]
  refine follows_then (follows_persistSandboxServiceSnapshot (ha.keeps h₃) hs)
    fun κ₄ persisted hdone h => ?_
  have h₄ := h₃.trans h
  have hu₄ := h₄.undecided.trans hu
  cases persisted with
  | failed err => exact hfail _ err h₄
  | deferred =>
    exact Outline.follows_ask_bind trivial fun now _ =>
      follows_deferCreatingRequest (ha.keeps h₄) hu₄ _
  | done =>
  refine Outline.follows_ask_bind trivial fun template _ => ?_
  cases template with
  | error err => exact hfail _ err h₄
  | ok templateID =>
  refine Outline.follows_ask_bind trivial fun downloads _ => ?_
  cases downloads with
  | some err => exact hfail _ err h₄
  | none =>
    dsimp only
    split
    · exact follows_launchWindows (ha.keeps h₄) (hdone rfl) hu₄ (hst.keeps h₄) _ _
    · exact follows_launchLinux (ha.keeps h₄) (hdone rfl) hu₄ (hst.keeps h₄) _ _

/-! ### The frame of a start -/

theorem retryCount_beginCreating (cfg : Settings) (st : RunnerState) (workerID : String)
    (now : Time) : (beginCreating cfg st workerID now).retryCount = st.retryCount := by
  unfold beginCreating
  dsimp only
  split <;> rfl

theorem accounts_beginCreating (cfg : Settings) (hq : b.status = .queued) (workerID : String)
    (now : Time) : Accounts cfg.retryMaxAttempts b (beginCreating cfg b workerID now) .creating := by
  have hlive : live b.status = true := by rw [hq]; rfl
  unfold beginCreating
  dsimp only
  split <;> exact accounts_started trivial (.inl rfl) hlive (fun _ => .inl hq) (fun h => h) rfl rfl

/-- The creating write is made for the row that was found queued, with capacity reserved for it
and, on Windows, under the creation lock. -/
theorem follows_admitRequest (hreq : req ∈ κ.rows) (hkey : sanitizeID req.id = req.id)
    (hwin : isWindows req.labels = true → req.id ∈ κ.creation) :
    R.outline.Follows (fun _ _ => True) κ (admitRequest cfg req workerID) := by
  have hunlock : ∀ {κ'}, R.outline.Follows (fun _ _ => True) κ' (ask (.unlock req.id)) :=
    follows_of_part (follows_unlock_last trivial)
  refine Outline.follows_ask_bind trivial fun reply ht => ?_
  cases reply with
  | none => exact hunlock
  | some e =>
  have he : Learned κ (sanitizeID req.id) e := ht e rfl
  have hid : e.id = req.id := he.id_eq.trans hkey
  dsimp only
  split
  · exact hunlock
  · rename_i hq
    simp only [not_not] at hq
    have hbegin : isWindows e.labels = true → e.id ∈ κ.creation := by
      rw [← he.labels req hreq hkey.symm, hid]
      exact hwin
    refine Outline.follows_ask_bind ⟨e, List.mem_cons_self .., he.id_eq, hbegin⟩ fun n _ => ?_
    have ha : ∀ {κ'}, κ'.attempt = some (sanitizeID req.id, n) → OnAttempt κ' req.id n :=
      fun h => ⟨hkey, by rw [h, hkey]⟩
    have hst : ∀ {κ'}, e ∈ κ'.rows → Failable κ' req.id e e :=
      fun h => ⟨⟨h, he.ok.key.symm, rfl⟩, hid, rfl, rfl, rfl, hq⟩
    refine Outline.follows_ask_bind trivial fun profile _ => ?_
    match profile with
    | some (.lookup err) =>
      exact Outline.follows_ask_bind trivial fun _ _ => (follows_failStartForAttempt (ha rfl)
        (hst (List.mem_cons_self ..)) (.inr (.inl rfl)) _ _).mono fun _ _ _ => trivial
    | some (.validation err) =>
      exact Outline.follows_ask_bind trivial fun _ _ => (follows_failStartForAttempt (ha rfl)
        (hst (List.mem_cons_self ..)) (.inr (.inr rfl)) _ _).mono fun _ _ _ => trivial
    | none =>
    refine Outline.follows_ask_bind trivial fun reservation _ => ?_
    cases reservation with
    | failed => exact follows_of_part (follows_unlock (follows_release rfl trivial))
    | refused stage =>
      exact follows_of_part (follows_unlock (follows_quiet rfl fun now _ =>
        follows_deferQueuedRequest (ha rfl) _ _))
    | granted =>
    refine Outline.follows_ask_bind trivial fun now _ => ?_
    refine Outline.follows_ask_bind
      ⟨e, List.mem_cons_self .., ?_, ?_, ⟨hq, core_beginCreating ..⟩, ⟨rfl, ⟨n, ?_⟩, fun hw => ?_⟩,
        accounts_beginCreating cfg hq workerID now, trivial⟩
      fun created _ => ?_
    · have h := congrArg Prod.fst (rowKey_beginCreating cfg e workerID now)
      exact he.ok.key.symm.trans (congrArg sanitizeID h.symm)
    · exact congrArg Prod.snd (rowKey_beginCreating cfg e workerID now)
    · show some (sanitizeID req.id, n) = some (e.id, n)
      rw [hkey, hid]
    · exact hbegin hw
    · cases created with
      | none => exact follows_of_part (follows_unlock (follows_release rfl trivial))
      | some r =>
        refine Outline.follows_ask_bind trivial fun _ _ =>
          follows_runAttempt (b := e) ⟨hkey, ?_⟩ ?_ rfl
        · show some (sanitizeID req.id, n + 1) = some (req.id, n + 1)
          rw [hkey]
        · have h := core_beginCreating cfg e workerID now
          have hk := rowKey_beginCreating cfg e workerID now
          refine ⟨CopyOf.edit ⟨?_, he.ok.key.symm, rfl⟩ hk, hid,
            congrArg Core.terminationSource h, congrArg Core.runnerExitCode h,
            retryCount_beginCreating .., hq⟩
          exact List.mem_cons_of_mem r (List.mem_cons_self ..)

theorem follows_startRunner (hkey : sanitizeID id = id) :
    R.outline.Follows (fun _ _ => True) κ (startRunner cfg id workerID) := by
  refine Outline.follows_ask_bind trivial fun _ _ => ?_
  refine Outline.follows_ask_bind trivial fun reply ht => ?_
  cases reply with
  | none => exact follows_of_part (follows_unlock_last trivial)
  | some req =>
  have hreq : Learned (κ.locked id) (sanitizeID id) req := ht req rfl
  have hid : req.id = id := hreq.id_eq.trans hkey
  have hkey' : sanitizeID req.id = req.id := hreq.ok.key
  dsimp only
  split
  · rename_i hw
    refine Outline.follows_ask_bind trivial fun _ _ => ?_
    refine Outline.follows_ask_bind trivial fun _ _ => ?_
    refine Outline.follows_ask_bind trivial fun _ _ => ?_
    refine (follows_admitRequest (List.mem_cons_self ..) hkey' fun _ => ?_).bind fun _ _ _ => ?_
    · rw [hid]
      exact List.mem_cons_self ..
    · exact R.outline.follows_ask (.unlockCreation id) trivial fun _ _ => trivial
  · rename_i hw
    refine (follows_admitRequest (List.mem_cons_self ..) hkey' fun h => absurd h hw).bind fun _ _ _ => ?_
    exact R.outline.follows_ask (.startDone id) trivial fun _ _ => trivial

theorem follows_processQueuedRequests :
    R.outline.Follows (fun _ _ => True) κ (processQueuedRequests cfg) := by
  refine Outline.follows_ask_bind trivial fun now _ => ?_
  split
  · exact Outline.follows_pure trivial
  · refine Outline.follows_ask_bind trivial fun candidate _ => ?_
    cases candidate with
    | none => exact Outline.follows_pure trivial
    | some candidate =>
    refine Outline.follows_ask_bind trivial fun claimed _ => ?_
    split
    · refine Outline.follows_ask_bind trivial fun reply ht => ?_
      cases reply with
      | none => exact Outline.follows_pure trivial
      | some e => exact follows_startRunner (ht e rfl).ok.key
    · exact Outline.follows_pure trivial

end CiRunner.Lifecycle
