import CiRunner.Deployments.StopOutline

/-! The worker follows the outline: an attempt from the plan to a running process, the
recovery of one that was interrupted, and the checks of one that runs. -/

namespace CiRunner.Deployments

open Text Threads
open CiRunner.State (Time)

variable {settings : Settings} {κ : Know} {w : Site} {c d : Deployment} {α : Type}

/-! ### Executing -/

/-- A copy of which the plan is executed in the given sandbox. The last report may not have been
written. -/
structure Executing (κ : Know) (handle : Handle) (c d : Deployment) : Prop where
  copy : .copy c ∈ κ
  status : c.status = .creating
  sandboxID : c.sandboxID = handle.sandboxID
  reports : c.core.Reports d.core

theorem Core.Reports.trans_stage {c d : Core} (h : c.Reports d) (stage : Option Stage) :
    c.Reports { d with failure := ⟨stage, ""⟩ } := by
  rcases h with rfl | ⟨_, rfl⟩ <;> exact .inr ⟨stage, rfl⟩

theorem Executing.wrote {handle : Handle} {e : Deployment} (h : Executing κ handle c d)
    (hw : w = .applyStage ∨ w = .checkpoint) (he : c.core.Reports e.core) :
    Writable κ w c e ∧ Executing κ handle c e ∧
      Executing (κ.wrote w e) handle e.next e.next := by
  have hwrites : w.Writes c.core e.core := by rcases hw with rfl | rfl <;> exact ⟨h.status, he⟩
  have hevidence : w.Evidence κ c.core e.core := by rcases hw with rfl | rfl <;> trivial
  refine ⟨⟨h.copy, hwrites, hevidence⟩, ⟨h.copy, h.status, h.sandboxID, he⟩, ?_⟩
  exact ⟨Know.copy_wrote _ _ _, he.same.2.1.trans h.status, he.same.2.2.trans h.sandboxID, .inl rfl⟩

theorem follows_onStage {handle : Handle} (h : Executing κ handle c d) (stage : ApplyStage) :
    (outline settings).Follows (fun κ' d' => ∃ c', Executing κ' handle c' d') κ
      (onStage d stage) := by
  unfold onStage
  split
  · exact follows_emit (Outline.follows_pure ⟨c, h⟩)
  · refine follows_emit ?_
    have hreports : c.core.Reports
        (d.transitioned .creating (some (.apply stage)) "").core := by
      have hd : (d.transitioned .creating (some (.apply stage)) "").core =
          { d.core with failure := ⟨some (.apply stage), ""⟩ } := by
        have hs : d.status = .creating := h.reports.same.2.1.trans h.status
        simp [Deployment.transitioned, Deployment.core, hs]
      rw [hd]
      exact h.reports.trans_stage _
    obtain ⟨hw, hfailed, hwritten⟩ := h.wrote (.inl rfl) hreports
    exact follows_transition hw (fun _ => Outline.follows_pure ⟨c, hfailed⟩)
      (Outline.follows_pure ⟨_, hwritten⟩)

theorem follows_onCheckpoint {handle : Handle} (h : Executing κ handle c d) (process : ProcessRef)
    (intentTag : String) :
    (outline settings).Follows (fun κ' d' => ∃ c', Executing κ' handle c' d') κ
      (onCheckpoint d process intentTag) := by
  obtain ⟨hw, hfailed, hwritten⟩ :=
    h.wrote (e := d.checkpointed process intentTag) (.inr rfl) h.reports
  exact follows_persist hw (fun _ => Outline.follows_pure ⟨c, hfailed⟩)
    (Outline.follows_pure ⟨_, hwritten⟩)

/-- An execution leaves a copy that goes back to one that was written, however long it takes. -/
theorem follows_apply {handle : Handle} (n : Nat) :
    ∀ {κ c d}, Executing κ handle c d →
      (outline settings).Follows (fun κ' d' => ∃ c', Executing κ' handle c' d') κ (apply n d) := by
  induction n with
  | zero => exact fun h => Outline.follows_pure ⟨_, h⟩
  | succ n ih =>
    intro κ c d h
    refine Outline.follows_ask_bind trivial fun event _ => ?_
    cases event with
    | stage stage =>
      exact Outline.Follows.bind (fun _ _ ⟨_, h'⟩ => ih h') (follows_onStage h stage)
    | checkpoint process intentTag =>
      exact Outline.Follows.bind (fun _ _ ⟨_, h'⟩ => ih h') (follows_onCheckpoint h process intentTag)
    | output stage stream message => exact follows_emit (ih h)

theorem reason_execution : Reason "deployment execution failed" := by decide +kernel

theorem reason_executionCleanup :
    Reason "deployment execution failed; cleanup is incomplete" := by decide +kernel

theorem Core.Reports.fails {c d e : Core} (h : c.Reports d) (hf : d.Fails e) : c.Fails e := by
  rcases h with rfl | ⟨_, rfl⟩
  · exact hf
  · exact hf

theorem Core.Reports.drops {c d : Core} (h : c.Reports d) :
    Core.Reports { c with sandboxID := "" } { d with sandboxID := "" } := by
  rcases h with rfl | ⟨stage, rfl⟩
  · exact .inl rfl
  · exact .inr ⟨stage, rfl⟩

theorem Deployment.fails_failedAt {stage : Stage} {reason : String} (hs : stage ≠ .expiryCleanup)
    (hr : Reason reason) : d.core.Fails (d.failedAt stage reason).core :=
  ⟨stage, reason, hs, hr, rfl⟩

theorem Executing.writable_kept {handle : Handle} (h : Executing κ handle c d)
    (hne : handle.sandboxID ≠ "") {reason : String} (hreason : Reason reason) (stage : ApplyStage) :
    Writable κ .applyFailed c (d.failedAt (.apply stage) reason) ∧
      Writable κ .applyCleanupFailed c (d.failedAt .expiryCleanup reason) := by
  have hcne : c.sandboxID ≠ "" := h.sandboxID ▸ hne
  have hdne : (d.failedAt (.apply stage) reason).core.sandboxID ≠ "" := by
    rw [show (d.failedAt (.apply stage) reason).core.sandboxID = d.core.sandboxID from rfl,
      h.reports.same.2.2]
    exact hcne
  constructor
  · exact ⟨h.copy, ⟨h.status, _, .inl rfl,
      h.reports.fails (d.fails_failedAt (by simp) hreason)⟩, fun he => absurd he hdne⟩
  · refine ⟨h.copy, ⟨h.status, hcne, reason, hreason, ?_⟩, trivial⟩
    rcases h.reports with he | ⟨_, he⟩
    · rw [← he]
      rfl
    · rw [show (d.failedAt .expiryCleanup reason).core =
        { d.core with
          status := .failed
          failure := ⟨some .expiryCleanup, reason⟩
          error := reason } from rfl, he]

theorem Executing.writable_closed {handle : Handle} (h : Executing κ handle c d)
    (hne : handle.sandboxID ≠ "") (hgone : .gone handle.sandboxID ∈ κ) {reason : String}
    (hreason : Reason reason) (stage : ApplyStage) :
    Writable κ .applyFailed c (d.cleared.failedAt (.apply stage) reason) ∧
      Writable κ .applyExpired c (d.cleared.transitioned .expired (some .cleanup) "") := by
  have hcne : c.sandboxID ≠ "" := h.sandboxID ▸ hne
  have hcgone : Fact.gone c.sandboxID ∈ κ := h.sandboxID ▸ hgone
  constructor
  · refine ⟨h.copy, ⟨h.status, { c.core with sandboxID := "" }, .inr rfl,
      h.reports.drops.fails ?_⟩, fun _ => ⟨hcne, hcgone⟩⟩
    exact ⟨.apply stage, reason, by simp, hreason, rfl⟩
  · refine ⟨h.copy, ⟨h.status, ?_⟩, hcne, hcgone⟩
    have hd : (d.cleared.transitioned .expired (some .cleanup) "").core =
        { d.core with sandboxID := "", status := .expired, failure := ⟨some .cleanup, ""⟩ } := by
      simp [Deployment.transitioned, Deployment.cleared, Deployment.core]
    rw [hd]
    rcases h.reports with he | ⟨_, he⟩ <;> rw [he]

theorem Executing.cons {handle : Handle} (h : Executing κ handle c d) (f : Fact) :
    Executing (f :: κ) handle c d :=
  ⟨List.mem_cons_of_mem _ h.copy, h.status, h.sandboxID, h.reports⟩

theorem follows_applyFailed {handle : Handle} (h : Executing κ handle c d)
    (hne : handle.sandboxID ≠ "") (stage : ApplyStage) :
    (outline settings).Follows (fun _ _ => True) κ (applyFailed d handle stage) := by
  refine Outline.follows_ask_bind trivial fun closed _ => ?_
  cases closed with
  | true =>
    obtain ⟨hfailed, hexpired⟩ :=
      (h.cons (.gone handle.sandboxID)).writable_closed hne List.mem_cons_self reason_execution stage
    refine Outline.follows_ask_bind trivial fun now _ => ?_
    simp only [if_true, true_and]
    split
    · exact follows_transition hexpired (fun _ => Outline.follows_pure trivial)
        (Outline.follows_pure trivial)
    · exact follows_fail_end hfailed
  | false =>
    refine Outline.follows_ask_bind trivial fun now _ => ?_
    simp only [Bool.false_eq_true, if_false, false_and]
    split
    · exact follows_fail_end (h.writable_kept hne reason_expiryCleanup stage).2
    · exact follows_fail_end (h.writable_kept hne reason_executionCleanup stage).1

/-! ### Creating -/

/-- A copy of which the creation is under way, or was interrupted, with no sandbox known. -/
structure Creating (κ : Know) (d : Deployment) : Prop where
  copy : .copy d ∈ κ
  ok : d.core.Ok
  status : d.status = .creating
  sandboxID : d.sandboxID = ""

theorem Creating.writable {handle : Handle} {e : Deployment} (h : Creating κ d)
    (hmade : .made handle.sandboxID d.id d.attempt ∈ κ) (hnamed : Named handle.sandboxID)
    (hsandbox : e.sandboxID = handle.sandboxID)
    (he : e.core = { d.core with sandboxID := e.sandboxID, expiresAt := e.expiresAt }) :
    Writable κ .created d e := by
  refine ⟨h.copy, ⟨h.status, h.sandboxID, ?_, ?_, he⟩, ?_⟩
  · rw [show e.core.sandboxID = handle.sandboxID from hsandbox]
    exact hnamed.1
  · rw [show e.core.sandboxID = handle.sandboxID from hsandbox]
    exact hnamed.2
  · show Fact.made e.sandboxID d.id d.attempt ∈ κ
    rw [hsandbox]
    exact hmade

theorem follows_abandon (handle : Handle) (err : WorkerError) :
    (outline settings).Follows (fun _ _ => True) κ (abandon handle err) :=
  Outline.follows_ask_bind trivial fun _ _ => Outline.follows_pure trivial

theorem follows_executing {handle : Handle} (h : Executing κ handle c d)
    (hnamed : Named handle.sandboxID) :
    (outline settings).Follows (fun _ _ => True) κ (do
      let d ← apply (← ask .applyLength) d
      match ← ask .applyResult with
      | .failed stage => applyFailed d handle stage
      | .ready endpoint process =>
        let (_, err) ← transition .running (d.readied endpoint process) .running
          (some (.apply .ready)) ""
        match err with
        | some err => abandon handle err
        | none => pure none) := by
  refine Outline.follows_ask_bind trivial fun n _ => ?_
  refine Outline.Follows.bind ?_ (follows_apply n h)
  rintro κ' d' ⟨c', h'⟩
  refine Outline.follows_ask_bind trivial fun result _ => ?_
  cases result with
  | failed stage => exact follows_applyFailed h' hnamed.1 stage
  | ready endpoint process =>
    have hne : c'.sandboxID ≠ "" := h'.sandboxID ▸ hnamed.1
    have hrunning : Writable κ' .running c'
        ((d'.readied endpoint process).transitioned .running (some (.apply .ready)) "") := by
      refine ⟨h'.copy, ⟨h'.status, hne, ?_⟩, trivial⟩
      have hcore : ((d'.readied endpoint process).transitioned .running (some (.apply .ready)) "").core
          = { d'.core with status := .running, failure := ⟨some (.apply .ready), ""⟩ } := by
        simp [Deployment.transitioned, Deployment.readied, Deployment.core]
      rw [hcore]
      rcases h'.reports with he | ⟨_, he⟩ <;> rw [he]
    exact follows_transition hrunning (fun err => follows_abandon handle err)
      (Outline.follows_pure trivial)

theorem follows_execute {handle : Handle} (h : Creating κ d)
    (hmade : .made handle.sandboxID d.id d.attempt ∈ κ) (hnamed : Named handle.sandboxID) :
    (outline settings).Follows (fun _ _ => True) κ (execute d handle) := by
  unfold execute
  have hsandbox : (d.confirmed handle).sandboxID = handle.sandboxID := hnamed.2
  have hw := h.writable (e := d.confirmed handle) hmade hnamed hsandbox rfl
  have hstatus : (d.confirmed handle).status = .creating :=
    (congrArg Core.status hw.writes.2.2.2.2).trans h.status
  generalize d.confirmed handle = e at hsandbox hw hstatus ⊢
  have hexecuting : Executing (κ.wrote .created e) handle e.next e.next :=
    ⟨Know.copy_wrote _ _ _, hstatus, hsandbox, .inl rfl⟩
  exact follows_persist hw (fun err => follows_abandon handle err)
    (follows_executing hexecuting hnamed)

theorem reason_create : Reason "Sandbox creation failed" := by decide +kernel

theorem reason_createCleanup : Reason "Sandbox creation failed; cleanup is incomplete" := by
  decide +kernel

theorem follows_createFailed_none (h : Creating κ d) (hunmade : .unmade d.id d.attempt ∈ κ) :
    (outline settings).Follows (fun _ _ => True) κ (createFailed d none) :=
  follows_fail_end ⟨h.copy, ⟨h.status, d.core, .inl rfl, d.fails_failedAt (by simp) reason_create⟩,
    fun _ => .inl ⟨h.sandboxID, hunmade⟩⟩

/-- The end of a creation whose sandbox is not ready: its evidence is kept until it is closed. -/
theorem writable_createFailed (hcopy : .copy d ∈ κ) (hstatus : d.status = .creating)
    (hne : d.sandboxID ≠ "") {e : Deployment} {reason : String} (hreason : Reason reason)
    (he : d.core.Drops e.core) (hgone : e.sandboxID = "" → .gone d.sandboxID ∈ κ) :
    Writable κ .createFailed d (e.failedAt .sandboxCreate reason) :=
  ⟨hcopy, ⟨hstatus, e.core, he, e.fails_failedAt (by simp) hreason⟩,
    fun hempty => .inr ⟨hne, hgone hempty⟩⟩

theorem follows_createFailed_some {handle : Handle} (h : Creating κ d)
    (hmade : .made handle.sandboxID d.id d.attempt ∈ κ) (hnamed : Named handle.sandboxID) :
    (outline settings).Follows (fun _ _ => True) κ (createFailed d (some handle)) := by
  have hsandbox : (d.withSandbox (trimSpace handle.sandboxID) handle.sandboxID).sandboxID =
      handle.sandboxID := hnamed.2
  have hw := h.writable (e := d.withSandbox (trimSpace handle.sandboxID) handle.sandboxID) hmade
    hnamed hsandbox rfl
  have hstatus : (d.withSandbox (trimSpace handle.sandboxID) handle.sandboxID).status = .creating :=
    (congrArg Core.status hw.writes.2.2.2.2).trans h.status
  unfold createFailed
  dsimp only
  generalize d.withSandbox (trimSpace handle.sandboxID) handle.sandboxID = e
    at hsandbox hw hstatus ⊢
  refine follows_persist hw (fun err => Outline.follows_pure trivial) ?_
  have hne : e.next.sandboxID ≠ "" := hsandbox ▸ hnamed.1
  have hcopy := κ.copy_wrote .created e
  refine Outline.follows_ask_bind trivial fun closed _ => ?_
  cases closed with
  | true =>
    exact follows_fail_end (writable_createFailed (List.mem_cons_of_mem _ hcopy) hstatus hne
      reason_create (.inr rfl) fun _ => hsandbox ▸ List.mem_cons_self)
  | false =>
    exact follows_fail_end (writable_createFailed hcopy hstatus hne reason_createCleanup (.inl rfl)
      fun he => absurd he hne)

theorem Creating.filter (h : Creating κ d) (id : String) (attempt : Nat) :
    Creating (κ.filter (· ≠ .ticket id attempt)) d :=
  ⟨List.mem_filter.mpr ⟨h.copy, by simp⟩, h.ok, h.status, h.sandboxID⟩

theorem Creating.cons (h : Creating κ d) (f : Fact) : Creating (f :: κ) d :=
  ⟨List.mem_cons_of_mem _ h.copy, h.ok, h.status, h.sandboxID⟩

theorem follows_createAttempt (h : Creating κ d) (hticket : .ticket d.id d.attempt ∈ κ) :
    (outline settings).Follows (fun _ _ => True) κ (createAttempt d) := by
  have hrest := h.filter d.id d.attempt
  refine Outline.follows_ask_bind hticket fun result hresult => ?_
  cases result with
  | pending => exact follows_emit (Outline.follows_pure trivial)
  | failed => exact follows_createFailed_none (hrest.cons _) List.mem_cons_self
  | made handle pending =>
    have hnamed : Named handle.sandboxID := hresult
    cases pending with
    | true => exact follows_createFailed_some (hrest.cons _) List.mem_cons_self hnamed
    | false =>
      dsimp only
      rw [hnamed.2, if_neg hnamed.1]
      exact follows_execute (hrest.cons _) List.mem_cons_self hnamed

/-! ### Planning -/

theorem reason_plan : Reason "persisted deployment plan is invalid" := by decide +kernel

theorem reason_source : Reason "deployment source is unavailable" := by decide +kernel

def PlanFailure (result : Option (Stage × String)) : Prop :=
  ∀ stage reason, result = some (stage, reason) → stage ≠ .expiryCleanup ∧ Reason reason

theorem follows_restorePlan :
    (outline settings).Follows (fun κ' result => κ' = κ ∧ PlanFailure result) κ restorePlan := by
  have hplan : PlanFailure (some (.planRestore, "persisted deployment plan is invalid")) := by
    rintro _ _ ⟨⟩
    exact ⟨by simp, reason_plan⟩
  have hsource : PlanFailure (some (.source, "deployment source is unavailable")) := by
    rintro _ _ ⟨⟩
    exact ⟨by simp, reason_source⟩
  refine Outline.follows_ask_bind trivial fun decoded _ => ?_
  split
  · exact Outline.follows_pure ⟨rfl, hplan⟩
  · refine Outline.follows_ask_bind trivial fun found _ => ?_
    split
    · exact Outline.follows_pure ⟨rfl, hsource⟩
    · refine Outline.follows_ask_bind trivial fun restored _ => ?_
      split
      · exact Outline.follows_pure ⟨rfl, hplan⟩
      · exact Outline.follows_pure ⟨rfl, fun _ _ h => by cases h⟩

theorem reason_template : Reason
    "no deployment template selected; create a deployment with an available Sandbox template" := by
  decide +kernel

theorem follows_processPlanning (hcopy : .copy d ∈ κ) (hok : d.core.Ok)
    (hstatus : d.status = .planning) (templateID : String) :
    (outline settings).Follows (fun _ _ => True) κ (processPlanning templateID d) := by
  refine Outline.Follows.bind ?_ follows_restorePlan
  rintro _ result ⟨rfl, hresult⟩
  rcases result with _ | ⟨stage, reason⟩
  · dsimp only
    split
    · exact follows_fail_end ⟨hcopy, ⟨hstatus, _, _, by simp, reason_template, rfl⟩, trivial⟩
    · have hcore : ((d.nextAttempt templateID).transitioned .creating none "").core =
          { d.core with attempt := d.attempt + 1, status := .creating, failure := {} } := by
        simp [Deployment.transitioned, Deployment.nextAttempt, Deployment.core]
      have hw : Writable _ .creating d ((d.nextAttempt templateID).transitioned .creating none "") :=
        ⟨hcopy, ⟨hstatus, hcore⟩, trivial⟩
      refine follows_transition hw (fun _ => Outline.follows_pure trivial) ?_
      refine follows_createAttempt ⟨Know.copy_wrote _ _ _, (hw.writes.ok hok).withVersion _, rfl, ?_⟩
        (List.mem_cons_of_mem _ List.mem_cons_self)
      exact hok.clean (.inr (.inl hstatus))
  · obtain ⟨hstage, hreason⟩ := hresult stage reason rfl
    exact follows_fail_end ⟨hcopy, ⟨hstatus, d.fails_failedAt hstage hreason⟩, trivial⟩

theorem follows_process (templateID id : String) :
    (outline settings).Follows (fun _ _ => True) κ (process templateID id) := by
  refine Outline.follows_ask_bind trivial fun r hr => ?_
  cases r with
  | error e => exact Outline.follows_pure trivial
  | ok d =>
    have hok : d.core.Ok := hr.1
    dsimp only
    split
    · exact Outline.follows_pure trivial
    · rename_i hqueued
      refine Outline.follows_ask_bind trivial fun now _ => ?_
      split
      · exact follows_stop _ _ _
      · have hcore : (d.transitioned .planning none "").core =
            { d.core with status := .planning, failure := {} } := by
          simp [Deployment.transitioned, Deployment.core]
        have hw : Writable (.copy d :: κ) .planning d (d.transitioned .planning none "") :=
          ⟨List.mem_cons_self, ⟨not_not.mp hqueued, hcore⟩, trivial⟩
        refine follows_transition hw (fun _ => Outline.follows_pure trivial) ?_
        exact follows_processPlanning (Know.copy_wrote _ _ _) ((hw.writes.ok hok).withVersion _) rfl _

/-! ### Recovery and monitoring -/

theorem reason_interrupted : Reason "deployment execution was interrupted" := by decide +kernel

theorem reason_lost : Reason "interrupted creation has no remaining Sandbox" := by decide +kernel

theorem reason_exit : Reason "deployment process is no longer running" := by decide +kernel

theorem follows_interrupted (hcopy : .copy d ∈ κ) (hstatus : d.status = .creating)
    (hne : d.sandboxID ≠ "") :
    (outline settings).Follows (fun _ _ => True) κ (interrupted d) := by
  refine follows_fail ⟨hcopy, ⟨hstatus, hne, d.fails_failedAt (by simp) reason_interrupted⟩, trivial⟩
    (fun _ => Outline.follows_pure trivial) ?_
  exact Outline.follows_ask_bind trivial fun now _ => follows_stop _ _ _

theorem follows_recoverCreating (hcopy : .copy d ∈ κ) (hok : d.core.Ok)
    (hstatus : d.status = .creating) :
    (outline settings).Follows (fun _ _ => True) κ (recoverCreating d) := by
  unfold recoverCreating
  split
  · rename_i hne
    exact follows_interrupted hcopy hstatus hne
  · rename_i hempty
    have hempty : d.sandboxID = "" := not_not.mp hempty
    refine Outline.follows_ask_bind trivial fun r hr => ?_
    cases r with
    | failed => exact Outline.follows_pure trivial
    | none =>
      refine Outline.follows_ask_bind (may_nowAfterLookup hcopy) fun now _ => ?_
      by_cases hearly : now < d.expiresAt + createGrace
      · simp only [if_pos hearly]
        exact Outline.follows_pure trivial
      · simp only [if_neg hearly]
        refine follows_fail_end (c := d)
          ⟨?_, ⟨hstatus, hempty, d.fails_failedAt (by simp) reason_lost⟩, ?_⟩
        · simp only [outline, learn, if_neg hearly]
          exact List.mem_cons_of_mem _ (List.mem_cons_of_mem _ hcopy)
        · simp only [outline, learn, if_neg hearly]
          exact List.mem_cons_self
    | found handle =>
      have hnamed : Named handle.sandboxID := hr
      have hw := writable_withSandbox (κ := κ) (.inl rfl) hcopy (.inl hstatus) hempty
        (hok.started (.inl hstatus)) hnamed
      dsimp only
      rw [hnamed.2, if_neg hnamed.1]
      refine follows_persist hw (fun _ => Outline.follows_pure trivial) ?_
      exact follows_interrupted (Know.copy_wrote _ _ _) hstatus hnamed.1

theorem follows_probe (d : Deployment) :
    (outline settings).Follows (fun κ' _ => κ ⊆ κ') κ (probe d) := by
  refine Outline.follows_ask_bind trivial fun r _ => ?_
  cases r with
  | failed => exact Outline.follows_pure (List.Subset.refl _)
  | missing => exact Outline.follows_pure (List.subset_cons_self _ _)
  | found handle =>
    refine Outline.follows_ask_bind trivial fun reply _ => ?_
    cases reply <;> exact Outline.follows_pure (List.Subset.refl _)

theorem follows_checkRunning (hcopy : .copy d ∈ κ) (hstatus : d.status = .running) :
    (outline settings).Follows (fun _ _ => True) κ (checkRunning d) := by
  refine Outline.Follows.bind ?_ (follows_probe d)
  intro κ' result hκ'
  cases result with
  | error err => exact Outline.follows_pure trivial
  | ok running =>
    refine Outline.follows_ask_bind trivial fun now _ => ?_
    split
    · exact follows_stop _ _ _
    · split
      · exact Outline.follows_pure trivial
      · exact follows_fail
          ⟨hκ' hcopy, ⟨hstatus, d.fails_failedAt (by simp) reason_exit⟩, trivial⟩
          (fun _ => Outline.follows_pure trivial) (follows_stop _ _ _)

theorem follows_advance (hcopy : .copy d ∈ κ) (hok : d.core.Ok) (templateID : String) :
    (outline settings).Follows (fun _ _ => True) κ (advance templateID d) := by
  unfold advance
  split
  · rename_i hcreating
    exact follows_recoverCreating hcopy hok hcreating
  · split
    · rename_i hplanning
      have hcore : (d.transitioned .queued (some .recovery) "").core =
          { d.core with status := .queued, failure := ⟨some .recovery, ""⟩ } := by
        simp [Deployment.transitioned, Deployment.core]
      exact follows_transition ⟨hcopy, ⟨hplanning, hcore⟩, trivial⟩
        (fun _ => Outline.follows_pure trivial) (Outline.follows_pure trivial)
    · refine Outline.follows_ask_bind trivial fun now _ => ?_
      split
      · exact follows_stop _ _ _
      · split
        · exact follows_process _ _
        · split
          · exact follows_stop _ _ _
          · split
            · exact follows_stop _ _ _
            · split
              · rename_i hrunning
                exact follows_checkRunning hcopy hrunning
              · exact Outline.follows_pure trivial

theorem follows_runLane (templateID : String) (kind : WorkKind) (id : String) :
    (outline settings).Follows (fun _ _ => True) κ (runLane templateID kind id) := by
  refine Outline.follows_ask_bind trivial fun r hr => ?_
  cases r with
  | none => exact Outline.follows_pure trivial
  | some d =>
    exact Outline.Follows.bind (fun _ _ _ => Outline.follows_pure trivial)
      (follows_advance List.mem_cons_self hr.1 templateID)

theorem follows_pruneDeployments (before : Time) (limit : Nat) :
    (outline settings).Follows (fun _ _ => True) κ (pruneDeployments before limit) := by
  unfold pruneDeployments
  split
  · exact Outline.follows_pure trivial
  · refine Outline.follows_ask_bind trivial fun records _ => ?_
    split
    · exact Outline.follows_pure trivial
    · exact follows_last (.prune _ _) trivial

end CiRunner.Deployments
