import CiRunner.Lifecycle.Exits

/-! The output of a runner. It comes in chunks, and each of them is searched for the texts by
which a runner tells that it has taken a job. A text that two chunks share is not found:
the request then looks as if its runner waited for a job, and the exit of the runner
puts it back into the queue. -/

namespace CiRunner.Lifecycle

open Threads Tables CiRunner.State Text
open CiRunner.Utf8 (Bytes)

/-! ### Chunks -/

theorem announcesJob_of_infix {data stream : Bytes} (h : data <:+: stream)
    (hdata : announcesJob data = true) : announcesJob stream = true := by
  simp only [announcesJob, Bool.or_eq_true, hasInfix_iff] at hdata ⊢
  exact hdata.imp (·.trans h) (·.trans h)

/-- As soon as an announcement has come in as a whole, one has come in within a chunk. -/
def Intact (chunks : List Bytes) : Prop :=
  ∀ done, done <+: chunks → announcesJob done.flatten = true →
    ∃ data ∈ done, announcesJob data = true

instance (chunks : List Bytes) : Decidable (Intact chunks) :=
  decidable_of_iff (∀ done ∈ chunks.inits, announcesJob done.flatten = true →
    ∃ data ∈ done, announcesJob data = true)
    ⟨fun h done hdone => h done ((List.mem_inits _ _).mpr hdone),
      fun h done hdone => h done ((List.mem_inits _ _).mp hdone)⟩

theorem Intact.any_eq {chunks : List Bytes} (h : Intact chunks) :
    chunks.any announcesJob = announcesJob chunks.flatten := by
  rw [Bool.eq_iff_iff, List.any_eq_true]
  constructor
  · rintro ⟨data, hmem, hdata⟩
    exact announcesJob_of_infix (List.infix_of_mem_flatten hmem) hdata
  · exact h chunks List.prefix_rfl

/-- The chunks come in one after the other. -/
def deliver (attempt : Nat) (id : String) : List Bytes → Prog Reply Unit
  | [] => pure ()
  | data :: rest => do
    appendRunnerStdout attempt id data
    deliver attempt id rest

/-! ### Rows -/

/-- The runner is known to have taken a job. -/
def TookJob (r : RunnerState) : Prop :=
  r.assignedJobID ≠ 0 ∨ r.assignedJobName = runnerJobStartedMarker

instance (r : RunnerState) : Decidable (TookJob r) := inferInstanceAs (Decidable (_ ∨ _))

/-- The row once the output has come in: marked if there is an announcement in it, and as it was
otherwise. -/
def Delivered (r : RunnerState) (announced : Bool) (r' : RunnerState) : Prop :=
  if announced = true ∧ ¬ TookJob r then
    ∃ now, r' = { r with assignedJobName := runnerJobStartedMarker }.written r now
  else r' = r

variable {cfg : Settings} {i : Nat} {id : String} {allowed : Call → Choice → Prop}
  {s : State} {r : RunnerState}

/-- The lock is free, and the row of the request is as given. -/
structure Resting (id : String) (r : RunnerState) (s : State) : Prop where
  lock : s.locks id = none
  row : s.rows.find (sanitizeID id) = some r
  key : sanitizeID id ≠ ""

theorem Holding.resting (h : Holding i id r s) :
    Resting id r { s with locks := Function.update s.locks id none } :=
  ⟨Function.update_self .., h.row, h.key⟩

theorem ends_markRunnerJobStarted (hw : StoreWorks allowed) (hs : Resting id r s)
    (hrunning : r.status = .running) (attempt : Option Nat) :
    (machine cfg).Ends i allowed (fun _ t => ∃ r', Resting id r' t ∧ Delivered r true r')
      (markRunnerJobStarted attempt id) s := by
  refine ends_withLock hs.lock ?_
  have hheld : Holding i id r { s with locks := Function.update s.locks id (some i) } :=
    ⟨Function.update_self .., hs.row, hs.key⟩
  refine ends_readState hw hheld ?_
  have hskip : (r.assignedJobID ≠ 0 ∨ r.assignedJobName = runnerJobStartedMarker ∨
      r.status = .completed ∨ r.status = .stopping) ↔ TookJob r := by
    simp [TookJob, hrunning]
  simp only [hskip]
  split
  · rename_i htook
    refine Machine.ends_done.mpr ⟨hheld.lock, r, hheld.resting, ?_⟩
    rw [Delivered, if_neg fun h => h.2 htook]
  · rename_i htook
    have hid : sanitizeID ({ r with assignedJobName := runnerJobStartedMarker } : RunnerState).id =
        sanitizeID id := by
      rw [Table.key_of_find hs.row, sanitizeID_sanitizeID]
    refine ends_writeState hw hheld hid rfl fun now t ht => Machine.ends_done.mpr ⟨ht.lock, _, ht.resting, ?_⟩
    rw [Delivered, if_pos ⟨rfl, htook⟩]
    exact ⟨now, rfl⟩

theorem Delivered.running {announced : Bool} {r' : RunnerState} (h : Delivered r announced r')
    (hrunning : r.status = .running) : r'.status = .running := by
  unfold Delivered at h
  split at h
  · obtain ⟨now, rfl⟩ := h
    simp only [RunnerState.written, RunnerState.applyStateTimestamps, hrunning]
  · rw [h, hrunning]

/-- An announcement leaves the runner known to have taken a job. -/
theorem Delivered.tookJob {r' : RunnerState} (h : Delivered r true r')
    (hrunning : r.status = .running) : TookJob r' := by
  unfold Delivered at h
  split at h
  · obtain ⟨now, rfl⟩ := h
    refine .inr ?_
    simp only [RunnerState.written, RunnerState.applyStateTimestamps, hrunning]
  · rename_i htook
    rw [h]
    exact not_not.mp fun hnot => htook ⟨rfl, hnot⟩

theorem Delivered.trans {first rest : Bool} {r' r'' : RunnerState} (h : Delivered r first r')
    (h' : Delivered r' rest r'') (hrunning : r.status = .running) :
    Delivered r (first || rest) r'' := by
  cases first with
  | false =>
    rw [Delivered, if_neg (by simp)] at h
    rw [← h, Bool.false_or]
    exact h'
  | true =>
    rw [Delivered, if_neg fun hn => hn.2 (h.tookJob hrunning)] at h'
    rw [h', Bool.true_or]
    exact h

/-- The row depends on whether one of the chunks has an announcement in it. -/
theorem ends_deliver (hw : StoreWorks allowed) (attempt : Nat) (chunks : List Bytes)
    (hs : Resting id r s) (hrunning : r.status = .running) :
    (machine cfg).Ends i allowed
      (fun _ t => ∃ r', Resting id r' t ∧ Delivered r (chunks.any announcesJob) r')
      (deliver attempt id chunks) s := by
  induction chunks generalizing r s with
  | nil => exact Machine.ends_done.mpr ⟨r, hs, by simp [Delivered]⟩
  | cons data rest ih =>
    have hfirst : (machine cfg).Ends i allowed
        (fun _ t => ∃ r', Resting id r' t ∧ Delivered r (announcesJob data) r')
        (appendRunnerStdout attempt id data) s := by
      unfold appendRunnerStdout
      split
      · rename_i h
        rw [h]
        exact ends_markRunnerJobStarted hw hs hrunning _
      · rename_i h
        exact Machine.ends_done.mpr ⟨r, hs, by simp [Delivered, h]⟩
    refine hfirst.bind fun _ t ht => ?_
    obtain ⟨r', hr', hfirst⟩ := ht
    refine (ih hr' (hfirst.running hrunning)).mono ?_
    rintro _ u ⟨r'', hu, hrest⟩
    exact ⟨r'', hu, hfirst.trans hrest hrunning⟩

/-! ### The exit of a runner that has taken a job -/

/-- The request is not in the queue, and its runner has taken a job. -/
structure Taken (r : RunnerState) : Prop where
  status : r.status ≠ .queued
  assigned : r.assignedJobID ≠ 0 ∨ r.assignedJobName ≠ ""

/-- The lock is held, or free, and the request is taken. -/
structure KeepsTaken (i : Nat) (id : String) (held : Bool) (s : State) : Prop where
  lock : s.locks id = if held then some i else none
  row : ∃ r, s.rows.find (sanitizeID id) = some r ∧ Taken r

theorem Taken.written {st current : RunnerState} (h : Taken st) (now : Time) :
    Taken (st.written current now) := by
  have hstamp : (st.applyStateTimestamps now).status = st.status ∧
      (st.applyStateTimestamps now).assignedJobID = st.assignedJobID ∧
      (st.applyStateTimestamps now).assignedJobName = st.assignedJobName := by
    unfold RunnerState.applyStateTimestamps
    split <;> exact ⟨rfl, rfl, rfl⟩
  exact ⟨by simpa only [RunnerState.written, hstamp.1] using h.status,
    by simpa only [RunnerState.written, hstamp.2.1, hstamp.2.2] using h.assigned⟩

/-- The calls of an exit that ask others. -/
def asksOthers : Call → Bool
  | .now | .remote _ | .stopSandbox _ | .getWorkflowJob _ _ | .runnerBusy => true
  | _ => false

section Rules

variable {α : Type} {Q : α → State → Prop} {held : Bool}

theorem ends_take {k : Unit → Prog Reply α} (hs : KeepsTaken i id false s)
    (hk : ∀ t, KeepsTaken i id true t → (machine cfg).Ends i allowed Q (k ()) t) :
    (machine cfg).Ends i allowed Q (ask (.lock id) >>= k) s :=
  ends_lock hs.lock (hk _ ⟨Function.update_self .., hs.row⟩)

theorem ends_release {k : Unit → Prog Reply α} (hs : KeepsTaken i id true s)
    (hk : ∀ t, KeepsTaken i id false t → (machine cfg).Ends i allowed Q (k ()) t) :
    (machine cfg).Ends i allowed Q (ask (.unlock id) >>= k) s :=
  ends_unlock hs.lock (hk _ ⟨Function.update_self .., hs.row⟩)

theorem ends_read {k : Option RunnerState → Prog Reply α} (hs : KeepsTaken i id held s)
    (hnone : (machine cfg).Ends i allowed Q (k none) s)
    (hsome : ∀ r, Taken r → (machine cfg).Ends i allowed Q (k (some r)) s) :
    (machine cfg).Ends i allowed Q (ask (.readState id) >>= k) s := by
  apply Machine.ends_call.mpr
  intro x _
  obtain ⟨r, hf, htaken⟩ := hs.row
  cases hx : x.fails with
  | true => exact ⟨none, s, by show some (if x.fails then _ else _, s) = _; rw [hx]; rfl, hnone⟩
  | false =>
    refine ⟨some r, s, ?_, hsome r htaken⟩
    show some (if x.fails then none else s.rows.find (sanitizeID id), s) = _
    rw [hx, hf]
    rfl

theorem ends_asks {c : Call} {k : Reply c → Prog Reply α} (hc : asksOthers c = true)
    (hs : KeepsTaken i id held s)
    (hk : ∀ a t, KeepsTaken i id held t → (machine cfg).Ends i allowed Q (k a) t) :
    (machine cfg).Ends i allowed Q (ask c >>= k) s := by
  apply Machine.ends_call.mpr
  intro x _
  have hserve : ∃ a t, serve cfg i c x s = some (a, t) ∧ t.locks = s.locks ∧ t.rows = s.rows := by
    cases c with
    | now => exact ⟨_, _, rfl, rfl, rfl⟩
    | remote request => exact ⟨_, _, rfl, rfl, rfl⟩
    | getWorkflowJob repository jobID => exact ⟨_, _, rfl, rfl, rfl⟩
    | runnerBusy => exact ⟨_, _, rfl, rfl, rfl⟩
    | stopSandbox sandboxID =>
      refine ⟨(s.stopSandbox sandboxID x.err).1, (s.stopSandbox sandboxID x.err).2, rfl, ?_⟩
      unfold State.stopSandbox
      split
      · exact ⟨rfl, rfl⟩
      · dsimp only
        split <;> exact ⟨rfl, rfl⟩
    | _ => cases hc
  obtain ⟨a, t, hserve, hlocks, hrows⟩ := hserve
  exact ⟨a, t, hserve, hk a t ⟨hlocks ▸ hs.lock, hrows ▸ hs.row⟩⟩

theorem KeepsTaken.settle (hs : KeepsTaken i id held s) (w : Writer) :
    KeepsTaken i id held (s.settle i w) := by
  unfold State.settle
  split
  · exact ⟨hs.lock, hs.row⟩
  · exact hs

/-- Whatever becomes of a write, the row stays taken if it writes a row that is. -/
theorem KeepsTaken.writeState {st : RunnerState} (hs : KeepsTaken i id held s) (hst : Taken st)
    (w : Writer) (now : Time) : KeepsTaken i id held (s.writeState i w st now).2 := by
  refine ⟨by rw [(locks_writeState s i w st now).1]; exact hs.lock, ?_⟩
  unfold State.writeState
  split
  · exact (hs.settle w).row
  · rename_i rows hrows
    obtain ⟨r, hf, htaken⟩ := hs.row
    obtain ⟨current, hcurrent, -, rfl⟩ := Requests.writeState_eq_some hrows
    by_cases hkey : (st.written current now).id = sanitizeID id
    · refine ⟨st.written current now, ?_, hst.written now⟩
      rw [← hkey] at hf
      have hself := Table.find_put_self hf
      rwa [hkey] at hself
    · exact ⟨r, (Table.find_put_of_ne hkey).trans hf, htaken⟩

theorem ends_write {w : Writer} {st : RunnerState} {k : Option RunnerState → Prog Reply α}
    (hs : KeepsTaken i id held s) (hst : Taken st)
    (hk : ∀ a t, KeepsTaken i id held t → (machine cfg).Ends i allowed Q (k a) t) :
    (machine cfg).Ends i allowed Q (ask (.writeState w st) >>= k) s := by
  apply Machine.ends_call.mpr
  intro x _
  cases hx : x.fails with
  | true =>
    refine ⟨none, s.settle i w, ?_, hk none _ (hs.settle w)⟩
    show some (if x.fails then (none, s.settle i w) else s.writeState i w st x.now) = _
    rw [hx]
    rfl
  | false =>
    refine ⟨(s.writeState i w st x.now).1, _, ?_, hk _ _ (hs.writeState hst w x.now)⟩
    show some (if x.fails then (none, s.settle i w) else s.writeState i w st x.now) = _
    rw [hx]
    rfl

theorem ends_writeOrLog {w : Writer} {st : RunnerState} (hs : KeepsTaken i id held s)
    (hst : Taken st) :
    (machine cfg).Ends i allowed (fun _ t => KeepsTaken i id held t) (writeOrLog w st) s :=
  ends_write hs hst fun _ _ ht => Machine.ends_done.mpr ht

theorem ends_withLock_any {P : α → Prop} {p : Prog Reply α} (hs : KeepsTaken i id false s)
    (hp : ∀ t, KeepsTaken i id true t →
      (machine cfg).Ends i allowed (fun a u => KeepsTaken i id true u ∧ P a) p t) :
    (machine cfg).Ends i allowed (fun a u => KeepsTaken i id false u ∧ P a) (withLock id p) s := by
  refine ends_take hs fun t ht => (hp t ht).bind ?_
  rintro a u ⟨hu, ha⟩
  exact ends_release hu fun v hv => Machine.ends_done.mpr ⟨hv, ha⟩

theorem ends_stopSandboxOf_any {st : RunnerState} (hs : KeepsTaken i id held s) :
    (machine cfg).Ends i allowed (fun _ t => KeepsTaken i id held t) (stopSandboxOf st) s := by
  unfold stopSandboxOf
  split
  · exact Machine.ends_done.mpr hs
  · refine ends_asks rfl hs fun a t ht => ?_
    cases a with
    | none => exact Machine.ends_done.mpr ht
    | some err =>
      dsimp only
      split <;> exact Machine.ends_done.mpr ht

theorem ends_cleanupGitHubRunner_any {st : RunnerState} (hs : KeepsTaken i id held s) :
    (machine cfg).Ends i allowed (fun _ t => KeepsTaken i id held t) (cleanupGitHubRunner st) s := by
  unfold cleanupGitHubRunner
  split
  · exact Machine.ends_done.mpr hs
  · exact ends_asks (c := .remote .removeRunner) (k := pure) rfl hs fun _ _ ht =>
      Machine.ends_done.mpr ht

theorem ends_githubRunnerBusy_any {st : RunnerState} (hs : KeepsTaken i id held s) :
    (machine cfg).Ends i allowed (fun _ t => KeepsTaken i id held t) (githubRunnerBusy st) s := by
  unfold githubRunnerBusy
  split
  · exact Machine.ends_done.mpr hs
  · exact ends_asks (c := .runnerBusy) (k := pure) rfl hs fun _ _ ht => Machine.ends_done.mpr ht

end Rules

section Edits

variable {st : RunnerState}

theorem Taken.edit {b : RunnerState} (h : Taken b) (hs : st.status ≠ .queued)
    (hid : st.assignedJobID = b.assignedJobID) (hname : st.assignedJobName = b.assignedJobName) :
    Taken st :=
  ⟨hs, by rw [hid, hname]; exact h.assigned⟩

theorem Taken.setEffectiveRunnerVersion (h : Taken st) (result : ExitResult) :
    Taken (setEffectiveRunnerVersion st result) := by
  unfold Lifecycle.setEffectiveRunnerVersion
  split
  · exact h.edit h.status rfl rfl
  · exact h

theorem Taken.setTerminationSource (h : Taken st) (source : TerminationSource) :
    Taken (setTerminationSource st source) := by
  unfold Lifecycle.setTerminationSource
  split
  · exact h
  · exact h.edit h.status rfl rfl

theorem Taken.keepBusyRunner (h : Taken st) (message : String) :
    Taken (keepBusyRunner st message) := by
  refine ⟨nofun, h.assigned.imp id fun hname => ?_⟩
  rw [show (Lifecycle.keepBusyRunner st message).assignedJobName = st.assignedJobName from
    if_neg hname]
  exact hname

/-- A runner that has taken a job does not get another attempt. -/
theorem Taken.retried {c : Prop} [Decidable c] (h : Taken st) (now : Time) :
    Taken (if c then retryRunnerExitedWithoutJob cfg st now else st) := by
  rw [show retryRunnerExitedWithoutJob cfg st now = st from if_pos (.inr h.assigned), ite_self]
  exact h

theorem Taken.scheduleCleanupRetry (h : Taken st) {err : Err} {now : Time} {next : RunnerState}
    (hnext : scheduleCleanupRetry cfg st err now = some next) : Taken next := by
  unfold Lifecycle.scheduleCleanupRetry at hnext
  dsimp only at hnext
  split at hnext
  · cases hnext
  · split at hnext
    · cases hnext
    · cases hnext
      refine h.edit nofun ?_ ?_ <;> dsimp only <;> split <;> rfl

theorem Taken.retainWorkflowJobResult (h : Taken st) (job : WorkflowJob) (now : Time) :
    Taken (retainWorkflowJobResult st job now).1 := by
  obtain ⟨result, hresult⟩ := retainWorkflowJobResult_eq st job now
  rw [hresult]
  exact h.edit h.status rfl rfl

end Edits

section Programs

variable {st : RunnerState}

theorem ends_recordLateRunnerExitEvidence_any (hs : KeepsTaken i id true s) (h : Taken st)
    (attempt : RunnerAttemptIdentity) (result : ExitResult) (err : Option Err) :
    (machine cfg).Ends i allowed (fun _ t => KeepsTaken i id true t)
      (recordLateRunnerExitEvidence st attempt result err) s := by
  have hversioned := h.setEffectiveRunnerVersion result
  unfold recordLateRunnerExitEvidence
  split
  · exact Machine.ends_done.mpr hs
  · dsimp only
    split
    · split
      · exact Machine.ends_done.mpr hs
      · exact ends_writeOrLog hs hversioned
    · exact ends_writeOrLog hs (hversioned.edit hversioned.status rfl rfl)

theorem ends_finishError_any (hs : KeepsTaken i id true s) (h : Taken st) :
    (machine cfg).Ends i allowed (fun _ t => KeepsTaken i id true t) (finishError cfg st) s := by
  refine (ends_stopSandboxOf_any hs).bind fun sandboxErr u hu => ?_
  cases sandboxErr
  all_goals
    refine ends_asks rfl hu fun now v hv => ?_
    refine (ends_cleanupGitHubRunner_any hv).bind fun cleanupErr w hw => ?_
    cases cleanupErr with
    | none =>
      refine ends_writeOrLog hw (Taken.retried ?_ now)
      exact h.edit nofun rfl rfl
    | some e =>
      dsimp only
      split
      · rename_i hnext
        refine ends_writeOrLog hw (Taken.scheduleCleanupRetry ?_ hnext)
        exact h.edit h.status rfl rfl
      · exact ends_writeOrLog hw (h.edit nofun rfl rfl)

theorem ends_finishExit_any (hs : KeepsTaken i id true s) (h : Taken st) (runnerFailed : Bool) :
    (machine cfg).Ends i allowed (fun _ t => KeepsTaken i id true t)
      (finishExit cfg st runnerFailed) s := by
  refine (ends_stopSandboxOf_any hs).bind fun sandboxErr u hu => ?_
  refine ends_asks rfl hu fun now v hv => ?_
  cases sandboxErr <;> cases runnerFailed
  all_goals
    refine (ends_cleanupGitHubRunner_any hv).bind fun cleanupErr w hw => ?_
    cases cleanupErr with
    | none =>
      refine ends_writeOrLog hw (Taken.retried ?_ now)
      exact h.edit nofun rfl rfl
    | some e =>
      dsimp only
      split
      · rename_i hnext
        refine ends_writeOrLog hw (Taken.scheduleCleanupRetry ?_ hnext)
        exact h.edit nofun rfl rfl
      · refine ends_writeOrLog hw (Taken.retried ?_ now)
        exact h.edit nofun rfl rfl

theorem ends_retainWorkflowJobResultAfterRunnerExit_any (hs : KeepsTaken i id false s) :
    (machine cfg).Ends i allowed (fun _ t => KeepsTaken i id false t)
      (retainWorkflowJobResultAfterRunnerExit id) s := by
  unfold retainWorkflowJobResultAfterRunnerExit
  refine (ends_withLock_any (P := fun _ => True) hs fun t ht =>
    ends_read (k := pure) ht (Machine.ends_done.mpr ⟨ht, trivial⟩) fun r _ =>
      Machine.ends_done.mpr ⟨ht, trivial⟩).bind ?_
  rintro before t ⟨ht, -⟩
  cases before with
  | none => exact Machine.ends_done.mpr ht
  | some e =>
    dsimp only
    split
    · exact Machine.ends_done.mpr ht
    refine ends_asks rfl ht fun job u hu => ?_
    cases job with
    | error _ => exact Machine.ends_done.mpr hu
    | ok job =>
      refine (ends_withLock_any (P := fun _ => True) hu fun v hv => ?_).mono fun _ _ h => h.1
      refine ends_read hv (Machine.ends_done.mpr ⟨hv, trivial⟩) fun latest hlatest => ?_
      refine ends_asks rfl hv fun now w hw => ?_
      split
      · exact Machine.ends_done.mpr ⟨hw, trivial⟩
      split
      · exact (ends_writeOrLog hw (hlatest.retainWorkflowJobResult job now)).mono
          fun _ _ h => ⟨h, trivial⟩
      · exact Machine.ends_done.mpr ⟨hw, trivial⟩

theorem ends_cleanupExited_any (hs : KeepsTaken i id true s) (h : Taken st) (result : ExitResult)
    (err : Option Err) :
    (machine cfg).Ends i allowed (fun _ t => KeepsTaken i id false t)
      (cleanupExited cfg id st result err) s := by
  have hrest : ∀ (a : Unit) u, KeepsTaken i id true u →
      (machine cfg).Ends i allowed (fun _ t => KeepsTaken i id false t) (do
        let _ ← ask (.unlock id)
        retainWorkflowJobResultAfterRunnerExit id) u := fun _ u hu =>
    ends_release hu fun _ ht => ends_retainWorkflowJobResultAfterRunnerExit_any ht
  have hmarked := h.setTerminationSource .processExit
  cases err with
  | some e =>
    refine Machine.Ends.bind (ends_asks rfl hs fun now u hu => ?_) hrest
    refine ends_write hu (hmarked.edit nofun rfl rfl) fun a v hv => ?_
    cases a with
    | none => exact Machine.ends_done.mpr hv
    | some _ => exact ends_finishError_any hv (hmarked.edit nofun rfl rfl)
  | none =>
    refine Machine.Ends.bind (ends_asks rfl hs fun now u hu => ?_) hrest
    generalize decide (result.exitCode ≠ 0) = runnerFailed
    have hst : ∀ st' : RunnerState, st'.assignedJobID =
        (setTerminationSource st .processExit).assignedJobID →
        st'.assignedJobName = (setTerminationSource st .processExit).assignedJobName →
        Taken (markRunnerCleanupStarted st' now) := fun st' hid hname =>
      hmarked.edit nofun hid hname
    refine ends_write hu (hst _ ?_ ?_) fun a v hv => ?_
    · cases runnerFailed <;> rfl
    · cases runnerFailed <;> rfl
    · cases a with
      | none => exact Machine.ends_done.mpr hv
      | some _ =>
        refine ends_finishExit_any hv ?_ _
        cases runnerFailed <;> exact hmarked.edit nofun rfl rfl

theorem ends_unlock_any (hs : KeepsTaken i id true s) :
    (machine cfg).Ends i allowed (fun _ t => KeepsTaken i id false t) (ask (.unlock id)) s :=
  ends_release (k := pure) hs fun _ ht => Machine.ends_done.mpr ht

theorem ends_exitedUnlessBusy_any (hs : KeepsTaken i id true s) (attempt : RunnerAttemptIdentity)
    (result : ExitResult) (err : Option Err) :
    (machine cfg).Ends i allowed (fun _ t => KeepsTaken i id false t)
      (exitedUnlessBusy cfg id st attempt result err) s := by
  refine ends_release hs fun t ht => ?_
  refine (ends_githubRunnerBusy_any ht).bind fun busy u hu => ?_
  refine ends_take hu fun v hv => ends_read hv (ends_unlock_any hv) fun e he => ?_
  dsimp only
  split
  · exact ends_unlock_any hv
  split
  · exact (ends_recordLateRunnerExitEvidence_any hv he attempt result err).bind
      fun _ _ hw => ends_unlock_any hw
  have hversioned := he.setEffectiveRunnerVersion result
  split
  · refine ends_write hv (hversioned.keepBusyRunner _) fun a w hw => ?_
    cases a with
    | some _ => exact ends_unlock_any hw
    | none =>
      refine ends_read hw (ends_unlock_any hw) fun again hagain => ?_
      dsimp only
      split
      · exact ends_unlock_any hw
      · exact ends_cleanupExited_any hw hagain result err
  · exact ends_cleanupExited_any hv hversioned result err

theorem ends_runnerExitedForAttempt_any (hs : KeepsTaken i id false s)
    (attempt : RunnerAttemptIdentity) (result : ExitResult) (err : Option Err) :
    (machine cfg).Ends i allowed (fun _ t => KeepsTaken i id false t)
      (runnerExitedForAttempt cfg id attempt result err) s := by
  refine ends_take hs fun t ht => ends_read ht (ends_unlock_any ht) fun e he => ?_
  dsimp only
  split
  · exact ends_unlock_any ht
  split
  · exact (ends_recordLateRunnerExitEvidence_any ht he attempt result err).bind
      fun _ _ hu => ends_unlock_any hu
  split
  · exact ends_cleanupExited_any ht (he.setEffectiveRunnerVersion result) result err
  · exact ends_exitedUnlessBusy_any ht attempt result err

end Programs

/-! ### Announced jobs -/

theorem TookJob.taken (h : TookJob r) (hrunning : r.status = .running) : Taken r := by
  refine ⟨by rw [hrunning]; nofun, h.imp id fun hname => ?_⟩
  rw [hname]
  decide

/-- A runner that is known to have taken a job does not count as idle. -/
theorem TookJob.shouldStopIdleRunner (h : TookJob r) (now : Time) :
    shouldStopIdleRunner cfg r now = false := by
  unfold Lifecycle.shouldStopIdleRunner
  obtain hid | hname := h
  · simp [hid]
  · simp [hname]

/-- If no announcement is cut by the chunks, the row is left as if the output had come in one chunk:
marked if there is an announcement in it. Then the request never counts as one whose runner is
idle, and the exit of the runner, however it goes, does not put it back into the queue. -/
theorem job_start_detected {allowed : Call → Choice → Prop} (hw : StoreWorks allowed)
    (hs : Resting id r s) (hrunning : r.status = .running) (attempt : Nat) {chunks : List Bytes}
    (hintact : Intact chunks) :
    (machine cfg).Ends i allowed
      (fun _ t => ∃ r', Resting id r' t ∧ Delivered r (announcesJob chunks.flatten) r')
      (deliver attempt id chunks) s ∧
    (machine cfg).Ends i allowed
      (fun _ t => ∃ r', Resting id r' t ∧ Delivered r (announcesJob chunks.flatten) r')
      (deliver attempt id [chunks.flatten]) s ∧
    ∀ r' t, Resting id r' t → Delivered r (announcesJob chunks.flatten) r' →
      announcesJob chunks.flatten = true →
      TookJob r' ∧ (∀ now, shouldStopIdleRunner cfg r' now = false) ∧
      ∀ identity result err, (machine cfg).Ends i (fun _ _ => True)
        (fun _ u => ∃ r'', u.rows.find (sanitizeID id) = some r'' ∧ r''.status ≠ .queued)
        (runnerExitedForAttempt cfg id identity result err) t := by
  refine ⟨?_, ?_, fun r' t ht hdelivered hannounced => ?_⟩
  · rw [← hintact.any_eq]
    exact ends_deliver hw attempt chunks hs hrunning
  · have h := @ends_deliver cfg i id allowed s r hw attempt [chunks.flatten] hs hrunning
    rwa [List.any_cons, List.any_nil, Bool.or_false] at h
  · rw [hannounced] at hdelivered
    have htook := hdelivered.tookJob hrunning
    have htaken := htook.taken (hdelivered.running hrunning)
    refine ⟨htook, htook.shouldStopIdleRunner, fun identity result err => ?_⟩
    refine (ends_runnerExitedForAttempt_any ⟨ht.lock, r', ht.row, htaken⟩ identity result err).mono ?_
    rintro _ u hu
    obtain ⟨r'', hf, htaken⟩ := hu.row
    exact ⟨r'', hf, htaken.status⟩

theorem storeWorks_working : StoreWorks fun _ x => x.fails = false :=
  ⟨fun _ _ h => h, fun _ _ _ h => h⟩

def chunksOf (texts : List String) : List Bytes := texts.map fun text => Utf8.encode text.toList

/-- The announcement comes in a chunk of its own. -/
theorem job_start_detected_whole : (machine oneRunner).Ends 0 (fun _ x => x.fails = false)
    (fun _ t => ∃ r', Resting "1" r' t ∧ TookJob r')
    (deliver 1 "1" (chunksOf ["Listening for Jobs\n", "Running job: build\n"]))
    (State.initial (Table.empty.insert idleRow)) := by
  have hs : Resting "1" idleRow (State.initial (Table.empty.insert idleRow)) :=
    ⟨rfl, by decide +kernel, by decide +kernel⟩
  have hintact : Intact (chunksOf ["Listening for Jobs\n", "Running job: build\n"]) := by
    decide +kernel
  have h := @job_start_detected oneRunner 0 "1" _ _ _ storeWorks_working hs rfl 1 _ hintact
  refine h.1.mono ?_
  rintro _ t ⟨r', ht, hdelivered⟩
  exact ⟨r', ht, (h.2.2 r' t ht hdelivered (by decide +kernel)).1⟩

def cutAnnouncement : List Bytes := chunksOf ["Running ", "job: build\n"]

/-- The output comes in, and then the runner exits. -/
def cutOutput : List (Decision Choice Op) :=
  cutAnnouncement.map fun data => .start (.runnerOutput 1 "1" data)

def exitAfterOutput : List (Decision Choice Op) :=
  .start (.runnerExited "1" ⟨"s1", 7⟩ {} none) :: calls 4 12 { ticks := 8 }

/-- The announcement is missed, and the exit counts as that of a runner without a job. -/
theorem job_start_missed : announcesJob cutAnnouncement.flatten = true ∧
    ∃ c c' c'' r r', (machine oneRunner).Reachable .empty c ∧
      (machine oneRunner).exec c cutOutput = some c' ∧ c'.state.rows.find "1" = some r ∧
      r.status = .running ∧ ¬ TookJob r ∧
      (machine oneRunner).exec c' exitAfterOutput = some c'' ∧
      c''.state.rows.find "1" = some r' ∧ r'.status = .queued := by
  obtain ⟨c, hr, hp⟩ := Machine.exists_reachable_of_exec (M := machine oneRunner) (s := .empty)
    idling (fun c => ((machine oneRunner).exec c cutOutput).any fun c' =>
      ((machine oneRunner).exec c' exitAfterOutput).any fun c'' =>
        testRow "1" (fun _ r r' => r.status = .running && !TookJob r && r'.status = .queued) c' c'')
    (by decide +kernel)
  obtain ⟨c', hc', hp⟩ := (Option.any_eq_true ..).mp hp
  obtain ⟨c'', hc'', hp⟩ := (Option.any_eq_true ..).mp hp
  obtain ⟨r, r', hf, hf', hrow⟩ := of_testRow hp
  simp only [Bool.and_eq_true, Bool.not_eq_true', decide_eq_true_eq, decide_eq_false_iff_not] at hrow
  obtain ⟨⟨hrunning, htook⟩, hqueued⟩ := hrow
  exact ⟨by decide +kernel, c, c', c'', r, r', hr, hc', hf, hrunning, htook, hc'', hf', hqueued⟩

end CiRunner.Lifecycle
