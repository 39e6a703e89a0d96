import CiRunner.Deployments.Serve

/-! The outline of the deployment machine, the rules by which a program is taken
through it, and the programs that stop a deployment. -/

namespace CiRunner.Deployments

open Text Threads
open CiRunner.State (Time)

def outline (settings : Settings) : Outline (machine settings) Know where
  ok _ c x s := Fresh c x s
  inv := Inv
  holds i κ s := Holds (quotaLimit settings.maxConcurrent) i κ s
  effect := Effect
  may := may
  tells := tells
  learn := learn

variable {settings : Settings} {κ : Know} {w : Site} {c d : Deployment} {α : Type}
  {Q : Know → α → Prop}

/-! ### Writing -/

/-- The copy of a deployment that is written back, and what it is written over. -/
structure Writable (κ : Know) (w : Site) (c d : Deployment) : Prop where
  copy : .copy c ∈ κ
  writes : w.Writes c.core d.core
  evidence : w.Evidence κ c.core d.core

/-- What a thread knows after a write of its own. -/
abbrev Know.wrote (κ : Know) (w : Site) (d : Deployment) : Know :=
  learn κ (.updateDeployment w d) none

/-- The copy with the version that its row has after a write. -/
abbrev Deployment.next (d : Deployment) : Deployment := { d with version := d.version + 1 }

theorem Know.copy_wrote (κ : Know) (w : Site) (d : Deployment) : .copy d.next ∈ κ.wrote w d :=
  List.mem_cons_self

theorem follows_persist_end {Q : Know → Outcome → Prop} (hw : Writable κ w c d)
    (herr : ∀ e, Q κ (d, some e)) (hok : Q (κ.wrote w d) (d.next, none)) :
    (outline settings).Follows Q κ (persist w d) := by
  refine Outline.follows_ask_bind ⟨c, hw.copy, hw.writes, hw.evidence⟩ fun a _ => ?_
  rcases a with _ | e
  · exact Outline.follows_pure hok
  · exact Outline.follows_pure (herr (.store e))

theorem follows_persist {f : Outcome → Prog Reply α} (hw : Writable κ w c d)
    (herr : ∀ e, (outline settings).Follows Q κ (f (d, some e)))
    (hok : (outline settings).Follows Q (κ.wrote w d) (f (d.next, none))) :
    (outline settings).Follows Q κ (persist w d >>= f) :=
  Outline.Follows.bind (fun _ _ h => h) (follows_persist_end hw herr hok)

theorem follows_last (e : Call) (hmay : may κ e) :
    (outline settings).Follows (fun _ _ => True) κ (ask e) :=
  Outline.follows_ask (outline settings) e hmay fun _ _ => trivial

theorem follows_emit {f : Unit → Prog Reply α} {eventType stage message stream : String}
    (h : (outline settings).Follows Q κ (f ())) :
    (outline settings).Follows Q κ (emit d eventType stage message stream >>= f) :=
  Outline.follows_ask_bind trivial fun _ _ => h

theorem follows_transition {status : DeploymentStatus} {stage : Option Stage} {reason : String}
    {f : Outcome → Prog Reply α} (hw : Writable κ w c (d.transitioned status stage reason))
    (herr : ∀ e, (outline settings).Follows Q κ (f (d.transitioned status stage reason, some e)))
    (hok : (outline settings).Follows Q (κ.wrote w (d.transitioned status stage reason))
      (f ((d.transitioned status stage reason).next, none))) :
    (outline settings).Follows Q κ (transition w d status stage reason >>= f) := by
  refine Outline.Follows.bind (fun _ _ h => h) ?_
  unfold transition
  refine follows_persist hw (fun e => Outline.follows_pure (herr e)) ?_
  exact follows_emit (Outline.follows_pure hok)

theorem follows_fail {stage : Stage} {reason : String} {f : Outcome → Prog Reply α}
    (hw : Writable κ w c (d.failedAt stage reason))
    (herr : ∀ e, (outline settings).Follows Q κ (f (d.failedAt stage reason, some e)))
    (hok : (outline settings).Follows Q (κ.wrote w (d.failedAt stage reason))
      (f ((d.failedAt stage reason).next, none))) :
    (outline settings).Follows Q κ (fail w d stage reason >>= f) := by
  refine Outline.Follows.bind (fun _ _ h => h) ?_
  unfold fail
  refine follows_persist hw (fun e => Outline.follows_pure (herr e)) ?_
  exact follows_emit (Outline.follows_pure hok)

theorem follows_fail_end {stage : Stage} {reason : String} {f : Outcome → α}
    (hw : Writable κ w c (d.failedAt stage reason)) :
    (outline settings).Follows (fun _ _ => True) κ
      (fail w d stage reason >>= fun out => pure (f out)) :=
  follows_fail hw (fun _ => Outline.follows_pure trivial) (Outline.follows_pure trivial)

/-! ### The plan of a stop -/

/-- How the plan of a stop goes with the failure in the copy that is stopping. -/
structure StopPlan.Fits (plan : StopPlan) (expired : Bool) (f : Failure) : Prop where
  preserve : plan.preserveFailed = true →
    f.reason ≠ "" ∧ f.stage ≠ some .expiryCleanup ∧ plan.expiryCleanup = false
  expiry : plan.expiryCleanup = true → f.reason = "" ∨ f.stage = some .expiryCleanup
  plain : plan.preserveFailed = false → plan.expiryCleanup = false → f.reason = "" ∧ expired = false
  kept : f.reason ≠ "" → f.stage = some .expiryCleanup → plan.expiryCleanup = true

theorem stopPlan_fits (hok : d.core.Ok) (expired : Bool) (stage : Stage) :
    (stopPlan d expired).Fits expired (d.transitioned .stopping (some stage) "").failure := by
  have hreason : d.status = .failed → d.failure.reason ≠ "" := hok.failed
  by_cases hp : d.status = .failed ∨ (d.status = .stopping ∧ d.failure.reason ≠ "")
  · have hf : (d.transitioned .stopping (some stage) "").failure = d.failure := by
      simp [Deployment.transitioned, hp]
    have hne : d.failure.reason ≠ "" := by
      rcases hp with hs | hs
      · exact hreason hs
      · exact hs.2
    rw [hf]
    by_cases he : d.failure.stage = some .expiryCleanup
    · constructor <;> simp [stopPlan, he]
    · have hplan : stopPlan d expired = ⟨false, true⟩ := by simp only [stopPlan, he, hp]; simp
      constructor <;> simp [hplan, he, hne]
  · have hf : (d.transitioned .stopping (some stage) "").failure = ⟨some stage, ""⟩ := by
      simp only [Deployment.transitioned, ne_eq, not_true_eq_false, false_or, hp, not_false_eq_true,
        if_true]
    rw [hf]
    constructor <;> simp [stopPlan, hp]

/-! ### Cleaning up -/

/-- A copy that is being cleaned up; if it has no sandbox, there is a reason for that. -/
structure Cleaning (κ : Know) (plan : StopPlan) (expired : Bool) (d : Deployment) : Prop where
  copy : .copy d ∈ κ
  ok : d.core.Ok
  status : d.status = .stopping
  fits : plan.Fits expired d.failure
  resolved : d.sandboxID = "" →
    d.attempt = 0 ∨ .settled d.id d.attempt ∈ κ ∨ .clear d.id d.version ∈ κ

variable {plan : StopPlan} {expired : Bool}

theorem Cleaning.cons (h : Cleaning κ plan expired d) (f : Fact) :
    Cleaning (f :: κ) plan expired d where
  copy := List.mem_cons_of_mem _ h.copy
  ok := h.ok
  status := h.status
  fits := h.fits
  resolved he := (h.resolved he).imp_right
    (.imp (List.mem_cons_of_mem _) (List.mem_cons_of_mem _))

theorem Cleaning.writes_stopped (h : Cleaning κ plan expired d) :
    Site.Writes .stopped d.core (d.ended plan expired).core := by
  refine ⟨h.status, ?_⟩
  rcases hp : plan.preserveFailed with _ | _
  · rcases he : plan.expiryCleanup with _ | _
    · obtain ⟨hreason, rfl⟩ := h.fits.plain hp he
      exact .inr (.inr ⟨hreason, by
        simp [Deployment.ended, Deployment.cleared, Deployment.core, hp, he]⟩)
    · exact .inr (.inl ⟨h.fits.expiry he, by
        simp [Deployment.ended, Deployment.cleared, Deployment.core, hp, he]⟩)
  · obtain ⟨hreason, hstage, he⟩ := h.fits.preserve hp
    exact .inl ⟨hreason, hstage, by
      simp [Deployment.ended, Deployment.cleared, Deployment.core, hp, he]⟩

theorem follows_finishStop (h : Cleaning κ plan expired d)
    (hgone : d.sandboxID ≠ "" → .gone d.sandboxID ∈ κ) :
    (outline settings).Follows (fun _ _ => True) κ (finishStop plan d expired) := by
  have hevidence : Site.Evidence κ .stopped d.core (d.ended plan expired).core := by
    by_cases he : d.sandboxID = ""
    · exact .inr ⟨he, h.resolved he⟩
    · exact .inl ⟨he, hgone he⟩
  exact follows_persist ⟨h.copy, h.writes_stopped, hevidence⟩
    (fun _ => Outline.follows_pure trivial) (Outline.follows_pure trivial)

theorem reason_cleanup : Reason "deployment cleanup is incomplete" := by decide +kernel

theorem reason_expiryCleanup : Reason "deployment expired; cleanup is incomplete" := by
  decide +kernel

theorem follows_cleanupFailed (h : Cleaning κ plan expired d) (hne : d.sandboxID ≠ "") :
    (outline settings).Follows (fun _ _ => True) κ (cleanupFailed plan d) := by
  have hwritable : ∀ {stage reason}, Reason reason →
      (stage = .expiryCleanup ↔ plan.expiryCleanup = true) →
      Writable κ .stopCleanupFailed d (d.failedAt stage reason) := by
    intro stage reason hreason hstage
    refine ⟨h.copy, ⟨h.status, hne, stage, reason, hreason, fun hs hr => ?_, fun hr hs => ?_, rfl⟩,
      trivial⟩
    · exact (h.fits.expiry (hstage.mp hs)).resolve_left hr
    · exact hstage.mpr (h.fits.kept hr hs)
  unfold cleanupFailed failCleanup
  split
  · rename_i he
    exact follows_fail_end (hwritable reason_expiryCleanup (by simp [he]))
  · rename_i he
    exact follows_fail_end (hwritable reason_cleanup (by simp [he]))

theorem follows_closeDeployment (h : Cleaning κ plan expired d) (hne : d.sandboxID ≠ "")
    {handle : Handle} (hhandle : handle.sandboxID = d.sandboxID) :
    (outline settings).Follows (fun _ _ => True) κ (closeDeployment plan d expired handle) := by
  have hclose : ∀ stopped : ProcessReply, (outline settings).Follows (fun _ _ => True) κ
      (if stopped = .failed then cleanupFailed plan d
        else do
          if ← ask (.close handle) then finishStop plan d expired else cleanupFailed plan d) := by
    intro stopped
    split
    · exact follows_cleanupFailed h hne
    · refine Outline.follows_ask_bind trivial fun closed _ => ?_
      cases closed with
      | false => exact follows_cleanupFailed h hne
      | true => exact follows_finishStop (h.cons _) fun _ => hhandle ▸ List.mem_cons_self
  unfold closeDeployment
  dsimp only
  split
  · exact Outline.follows_ask_bind trivial fun stopped _ => hclose stopped
  · exact hclose .ok

theorem follows_cleanUp (h : Cleaning κ plan expired d) :
    (outline settings).Follows (fun _ _ => True) κ (cleanUp plan d expired) := by
  have htrim : trimSpace d.sandboxID = d.sandboxID := h.ok.sandbox
  unfold cleanUp
  rw [htrim]
  split
  · rename_i he
    exact follows_finishStop h fun hne => absurd he hne
  · rename_i hne
    refine Outline.follows_ask_bind trivial fun r hr => ?_
    cases r with
    | failed => exact follows_cleanupFailed h hne
    | missing => exact follows_finishStop (h.cons _) fun _ => List.mem_cons_self
    | found handle => exact follows_closeDeployment h hne hr

/-! ### Stopping -/

/-- A copy that may be stopped: if it has no sandbox, it has begun no attempt, or none since it was
queued last, or its sandbox has been looked for. -/
structure Stoppable (κ : Know) (d : Deployment) : Prop where
  copy : .copy d ∈ κ
  ok : d.core.Ok
  left : ¬d.core.Over
  resolved : d.sandboxID = "" → d.attempt = 0 ∨ (d.status = .queued ∨ d.status = .planning) ∨
    .lookedUp d.id d.attempt d.version ∈ κ

theorem Deployment.core_transitioned_stopping (d : Deployment) (stage : Stage) :
    (d.transitioned .stopping (some stage) "").core =
      { d.core with
        status := .stopping
        failure := if d.core.Preserves then d.failure else ⟨some stage, ""⟩ } := by
  by_cases hp : d.core.Preserves
  · have hp' : d.status = .failed ∨ (d.status = .stopping ∧ d.failure.reason ≠ "") := hp
    rw [if_pos hp]
    simp [transitioned, core, hp']
  · have hp' : ¬(d.status = .failed ∨ (d.status = .stopping ∧ d.failure.reason ≠ "")) := hp
    rw [if_neg hp]
    simp only [transitioned, core, ne_eq, not_true_eq_false, false_or, hp', not_false_eq_true,
      if_true]

theorem Stoppable.writable (h : Stoppable κ d) :
    Writable κ (.stopping (decide (d.status = .queued ∨ d.status = .planning))) d
      (d.transitioned .stopping (some .cleanup) "") := by
  refine ⟨h.copy, ⟨h.left, fun hs => of_decide_eq_true hs, ?_⟩, trivial⟩
  exact d.core_transitioned_stopping .cleanup

theorem Stoppable.cleaning (h : Stoppable κ d) (expired : Bool) :
    Cleaning (κ.wrote (.stopping (decide (d.status = .queued ∨ d.status = .planning)))
        (d.transitioned .stopping (some .cleanup) ""))
      (stopPlan d expired) expired (d.transitioned .stopping (some .cleanup) "").next where
  copy := Know.copy_wrote _ _ _
  ok := (h.writable.writes.ok h.ok).withVersion _
  status := rfl
  fits := stopPlan_fits h.ok expired .cleanup
  resolved he := by
    rcases h.resolved he with hzero | hidle | hlooked
    · exact .inl hzero
    · refine .inr (.inr (List.mem_cons_of_mem _ (List.mem_append_left _ (List.mem_append_left _ ?_))))
      rw [decide_eq_true hidle]
      exact List.mem_singleton_self _
    · refine .inr (.inl (List.mem_cons_of_mem _ (List.mem_append_left _
        (List.mem_append_right _ ?_))))
      exact List.mem_filterMap.mpr ⟨_, hlooked, if_pos ⟨rfl, rfl⟩⟩

theorem follows_stopping (h : Stoppable κ d) (expired : Bool) :
    (outline settings).Follows (fun _ _ => True) κ (do
      let (d', err) ← transition
        (.stopping (decide (d.status = .queued ∨ d.status = .planning))) d .stopping
        (some .cleanup) ""
      match err with
      | some err => pure (some err)
      | none => cleanUp (stopPlan d expired) d' expired) :=
  follows_transition h.writable (fun _ => Outline.follows_pure trivial)
    (follows_cleanUp (h.cleaning expired))

theorem may_nowAfterLookup (hcopy : .copy d ∈ κ) :
    may (learn κ (.reconcile d) .none) (.nowAfterLookup d) :=
  ⟨List.mem_cons_self, d, List.mem_cons_of_mem _ hcopy, rfl⟩

theorem formatAttempt_of_pos {n : Nat} (h : 0 < n) : formatAttempt n = n := Nat.max_eq_left h

theorem writable_withSandbox {handle : Handle} (hw : w = .recovered ∨ w = .stopRecovered)
    (hcopy : .copy d ∈ κ) (hstatus : d.status = .creating ∨ (w = .stopRecovered ∧ d.status = .stopping))
    (hempty : d.sandboxID = "") (hpos : 0 < d.attempt) (hnamed : Named handle.sandboxID) :
    Writable (learn κ (.reconcile d) (.found handle)) w d
      (d.withSandbox handle.sandboxID handle.sandboxID) := by
  have hfinds : d.core.Finds (d.withSandbox handle.sandboxID handle.sandboxID).core :=
    ⟨hempty, hnamed.1, hnamed.2, rfl⟩
  have hmade : Fact.made handle.sandboxID d.id d.attempt ∈ learn κ (.reconcile d) (.found handle) := by
    simp only [learn, formatAttempt_of_pos hpos]
    exact List.mem_cons_self
  rcases hw with rfl | rfl
  · exact ⟨List.mem_cons_of_mem _ hcopy, ⟨hstatus.resolve_right (by simp), hfinds⟩, hmade⟩
  · exact ⟨List.mem_cons_of_mem _ hcopy, ⟨hstatus.imp_right And.right, hfinds⟩, hmade⟩

/-- The copy after the search for its sandbox, if the stop goes on. -/
structure Searched (κ : Know) (d d' : Deployment) : Prop where
  stoppable : Stoppable κ d'
  status : d'.status = d.status
  failure : d'.failure = d.failure

theorem Searched.stopPlan_eq {d' : Deployment} (h : Searched κ d d') (expired : Bool) :
    stopPlan d' expired = stopPlan d expired := by
  simp only [stopPlan, h.status, h.failure]

theorem follows_reconcileStop (hcopy : .copy d ∈ κ) (hok : d.core.Ok) (hempty : d.sandboxID = "")
    (hpos : 0 < d.attempt) (hstatus : d.status = .creating ∨ d.status = .stopping) :
    (outline settings).Follows (fun κ' out => out.2 = none → Searched κ' d out.1) κ
      (reconcileStop d) := by
  have hleft : ∀ {e : Deployment}, e.status = d.status → ¬e.core.Over := by
    rintro e he ⟨hterminal, -⟩
    rw [show e.core.status = d.status from he] at hterminal
    rcases hstatus with hs | hs <;> simp [hs, DeploymentStatus.terminal] at hterminal
  refine Outline.follows_ask_bind trivial fun r hr => ?_
  cases r with
  | failed => exact Outline.follows_pure fun h => by cases h
  | none =>
    refine Outline.follows_ask_bind (may_nowAfterLookup hcopy) fun now _ => ?_
    by_cases hearly : now < d.expiresAt + createGrace
    · simp only [if_pos hearly]
      exact Outline.follows_pure fun h => by cases h
    · simp only [if_neg hearly]
      refine Outline.follows_pure fun _ => ⟨⟨?_, hok, hleft rfl, fun _ => .inr (.inr ?_)⟩, rfl, rfl⟩
      · simp only [outline, learn, if_neg hearly]
        exact List.mem_cons_of_mem _ (List.mem_cons_of_mem _ hcopy)
      · simp only [outline, learn, if_neg hearly]
        exact List.mem_cons_self
  | found handle =>
    have hnamed : Named handle.sandboxID := hr
    have hw := writable_withSandbox (κ := κ) (w := .stopRecovered) (.inr rfl) hcopy
      (hstatus.imp_right fun h => ⟨rfl, h⟩) hempty hpos hnamed
    dsimp only
    rw [if_neg hnamed.1]
    refine follows_persist_end hw (fun _ h => by cases h) fun _ => ⟨⟨?_, ?_, hleft rfl, ?_⟩, rfl, rfl⟩
    · exact Know.copy_wrote _ _ _
    · exact (hw.writes.ok hok).withVersion _
    · exact fun he => absurd he hnamed.1

theorem stoppable_of_read (hcopy : .copy d ∈ κ) (hok : d.core.Ok) (hleft : ¬d.core.Over)
    (hsearch : ¬(d.sandboxID = "" ∧ 0 < d.attempt ∧ (d.status = .creating ∨ d.status = .stopping))) :
    Stoppable κ d := by
  refine ⟨hcopy, hok, hleft, fun he => ?_⟩
  by_cases hzero : d.attempt = 0
  · exact .inl hzero
  · right
    left
    have hidle : ¬(d.status = .creating ∨ d.status = .stopping) :=
      fun hs => hsearch ⟨he, Nat.pos_of_ne_zero hzero, hs⟩
    have hrunning : d.status ≠ .running := fun hs => hok.running hs he
    have hterminal : d.status.terminal ≠ true := fun ht => hleft ⟨ht, he⟩
    cases hs : d.status <;> simp_all [DeploymentStatus.terminal]

theorem follows_stopLoaded (hcopy : .copy d ∈ κ) (hok : d.core.Ok) (expired : Bool) :
    (outline settings).Follows (fun _ _ => True) κ (stopLoaded d expired) := by
  have htrim : trimSpace d.sandboxID = d.sandboxID := hok.sandbox
  unfold stopLoaded
  dsimp only
  rw [htrim]
  split
  · exact Outline.follows_pure trivial
  · rename_i hleft
    split
    · rename_i hsearch
      refine Outline.Follows.bind ?_
        (follows_reconcileStop hcopy hok hsearch.1 hsearch.2.1 hsearch.2.2)
      rintro κ' ⟨d', err⟩ hout
      cases err with
      | some err => exact Outline.follows_pure trivial
      | none =>
        have hsearched : Searched κ' d d' := hout rfl
        rw [← hsearched.stopPlan_eq expired]
        exact follows_stopping hsearched.stoppable expired
    · rename_i hsearch
      exact follows_stopping (stoppable_of_read hcopy hok hleft hsearch) expired

theorem follows_stop (id : String) (expired : Bool) (observed : Option Deployment) :
    (outline settings).Follows (fun _ _ => True) κ (stop id expired observed) := by
  refine Outline.follows_ask_bind trivial fun r hr => ?_
  cases r with
  | error e => exact Outline.follows_pure trivial
  | ok d =>
    dsimp only
    split
    · exact Outline.follows_pure trivial
    · exact follows_stopLoaded List.mem_cons_self hr.1 expired

end CiRunner.Deployments
